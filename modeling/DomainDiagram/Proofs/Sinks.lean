import DomainDiagram.Proofs.Printed

set_option autoImplicit false

namespace DomainDiagram

-- Of the two paths the first one goes to "false" where they part.
def Path.Before (path other : Path) : Prop :=
  ∃ (common : Path) (v : Var) (rest otherRest : Path),
    path = common ++ (v, false) :: rest ∧ other = common ++ (v, true) :: otherRest

theorem Path.before_cons (choice : Var × Bool) (path other : Path) (before : path.Before other) :
    Before (choice :: path) (choice :: other) := by
  obtain ⟨common, v, rest, otherRest, rfl, rfl⟩ := before
  exact ⟨choice :: common, v, rest, otherRest, rfl, rfl⟩

theorem Store.paths_before (store : Store) (sound : store.Sound) (f : Ref) (live : store.Live f) :
    (store.paths f).Pairwise Path.Before := by
  apply walk_induction store sound (fun steps f => (store.pathsFrom steps f).Pairwise Path.Before) _ _ _ f live
  · exact fun _ => .nil
  · exact fun _ => List.pairwise_singleton _ []
  · intro steps f node tests low high
    rw [paths_from_tests store steps f node tests, List.pairwise_append, List.pairwise_map, List.pairwise_map]
    refine ⟨low.imp (Path.before_cons _ _ _), high.imp (Path.before_cons _ _ _), fun left member right other => ?_⟩
    obtain ⟨path, _, rfl⟩ := List.mem_map.mp member
    obtain ⟨otherPath, _, rfl⟩ := List.mem_map.mp other
    exact ⟨[], node.var, path, otherPath, rfl, rfl⟩

namespace Printout

variable {σ : Type} (write : σ → String → Bool × σ)

def fed (sink : σ) (texts : List String) : σ := texts.foldl (fun sink text => (write sink text).2) sink

structure Breaks (sink : σ) (texts : List String) (k : Nat) : Prop where
  inside : k ≤ texts.length
  taken : ∀ (j : Nat) (text : String), j < k → texts[j]? = some text →
    (write (fed write sink (texts.take j)) text).1 = true
  refused : ∀ text, texts[k]? = some text → (write (fed write sink (texts.take k)) text).1 = false

theorem breaks_nil (sink : σ) (k : Nat) : Breaks write sink [] k ↔ k = 0 := by
  constructor
  · exact fun breaks => Nat.le_zero.mp breaks.inside
  · rintro rfl
    exact ⟨Nat.le_refl 0, nofun, nofun⟩

theorem breaks_cons (sink : σ) (text : String) (rest : List String) (k : Nat) :
    Breaks write sink (text :: rest) k ↔ ((write sink text).1 = false ∧ k = 0) ∨
      ((write sink text).1 = true ∧ ∃ j, k = j + 1 ∧ Breaks write (write sink text).2 rest j) := by
  constructor
  · intro breaks
    cases k with
    | zero => exact .inl ⟨breaks.refused text rfl, rfl⟩
    | succ j =>
        refine .inr ⟨breaks.taken 0 text (Nat.succ_pos j) rfl, j, rfl, ?_⟩
        exact ⟨Nat.le_of_succ_le_succ breaks.inside,
          fun i other less here => breaks.taken (i + 1) other (Nat.succ_lt_succ less) here, breaks.refused⟩
  · rintro (⟨refused, rfl⟩ | ⟨took, j, rfl, breaks⟩)
    · refine ⟨Nat.zero_le _, nofun, fun other here => ?_⟩
      obtain rfl := Option.some.inj here
      exact refused
    · refine ⟨Nat.succ_le_succ breaks.inside, fun i other less here => ?_, breaks.refused⟩
      cases i with
      | zero =>
          obtain rfl := Option.some.inj here
          exact took
      | succ i => exact breaks.taken i other (Nat.lt_of_succ_lt_succ less) here

theorem breaks_exist (sink : σ) (texts : List String) : ∃ k, Breaks write sink texts k := by
  induction texts generalizing sink with
  | nil => exact ⟨0, (breaks_nil write sink 0).mpr rfl⟩
  | cons text rest ih =>
      cases took : (write sink text).1 with
      | false => exact ⟨0, (breaks_cons write sink text rest 0).mpr (.inl ⟨took, rfl⟩)⟩
      | true =>
          obtain ⟨j, breaks⟩ := ih (write sink text).2
          exact ⟨j + 1, (breaks_cons write sink text rest _).mpr (.inr ⟨took, j, rfl, breaks⟩)⟩

theorem breaks_never (sink : σ) (texts : List String) (accepts : ∀ sink text, (write sink text).1 = true) :
    Breaks write sink texts texts.length := by
  refine ⟨Nat.le_refl _, fun _ text _ _ => accepts _ text, fun text beyond => ?_⟩
  rw [List.getElem?_eq_none (Nat.le_refl _)] at beyond
  cases beyond

def outcome (k : Nat) (texts : List String) : Except Failure Unit :=
  if k = texts.length then .ok () else .error (.refused .sinkFull)

def Stops (sink : σ) (texts : List String) (k : Nat) (run : EStateM.Result Failure (Printout σ) Unit) : Prop :=
  ∃ offered, run = match outcome k texts with
    | .ok () => .ok () ⟨fed write sink (texts.take (k + 1)), offered⟩
    | .error failure => .error failure ⟨fed write sink (texts.take (k + 1)), offered⟩

theorem offers_stop (texts : List String) (sink : σ) (offered : List String) (k : Nat)
    (breaks : Breaks write sink texts k) :
    Stops write sink texts k (texts.forM (offerGroup write) ⟨sink, offered⟩) := by
  induction texts generalizing sink offered k with
  | nil =>
      obtain rfl := (breaks_nil write sink k).mp breaks
      exact ⟨offered, rfl⟩
  | cons text rest ih =>
      have run := offer_run write text sink (text :: offered)
      rcases (breaks_cons write sink text rest k).mp breaks with ⟨refused, rfl⟩ | ⟨took, j, rfl, later⟩
      · refine ⟨text :: offered, ?_⟩
        rw [refused, if_neg Bool.false_ne_true] at run
        simp only [List.forM_eq_forM, List.forM_cons, bind, EStateM.bind, offerGroup, run]
        rfl
      · rw [took, if_pos rfl] at run
        obtain ⟨all, ended⟩ := ih (write sink text).2 (text :: offered) j later
        refine ⟨all, ?_⟩
        have same : outcome (j + 1) (text :: rest) = outcome j rest := by simp [outcome]
        rw [same]
        simp only [List.forM_eq_forM, List.forM_cons, bind, EStateM.bind, offerGroup, run]
        exact ended

theorem offer_stops (text : String) (sink : σ) (offered : List String) (k : Nat)
    (breaks : Breaks write sink [text] k) : Stops write sink [text] k (offer write text ⟨sink, offered⟩) := by
  have run := offer_run write text sink offered
  rcases (breaks_cons write sink text [] k).mp breaks with ⟨refused, rfl⟩ | ⟨took, j, rfl, later⟩
  · rw [refused, if_neg Bool.false_ne_true] at run
    exact ⟨offered, run⟩
  · obtain rfl := (breaks_nil write _ j).mp later
    rw [took, if_pos rfl] at run
    exact ⟨offered, run⟩

theorem fed_text (view : σ → String)
    (takes : ∀ sink text, (write sink text).1 = true → view (write sink text).2 = view sink ++ text)
    (refuses : ∀ sink text, (write sink text).1 = false → view (write sink text).2 = view sink)
    (texts : List String) (sink : σ) (k : Nat) (breaks : Breaks write sink texts k) :
    view (fed write sink (texts.take (k + 1))) = view sink ++ String.join (texts.take k) := by
  induction texts generalizing sink k with
  | nil =>
      rw [List.take_nil, List.take_nil, String.join_nil, String.append_empty]
      rfl
  | cons text rest ih =>
      rcases (breaks_cons write sink text rest k).mp breaks with ⟨refused, rfl⟩ | ⟨took, j, rfl, later⟩
      · rw [List.take_zero, String.join_nil, String.append_empty]
        exact refuses sink text refused
      · have after := ih (write sink text).2 j later
        rw [takes sink text took, String.append_assoc, ← String.join_cons] at after
        exact after

end Printout

namespace BoundedText

def Fits (sink : BoundedText) (texts : List String) : Prop :=
  (sink.text ++ String.join texts).utf8ByteSize ≤ sink.limit

theorem write_takes (sink : BoundedText) (text : String) :
    (write sink text).1 = true ↔ sink.text.utf8ByteSize + text.utf8ByteSize ≤ sink.limit := by
  by_cases fits : sink.text.utf8ByteSize + text.utf8ByteSize ≤ sink.limit
  · simp only [write, fits, if_true]
  · simp only [write, fits, if_false, Bool.false_eq_true]

theorem write_taken (sink : BoundedText) (text : String) (took : (write sink text).1 = true) :
    (write sink text).2 = ⟨sink.text ++ text, sink.limit⟩ := by
  have fits := (write_takes sink text).mp took
  simp only [write, fits, if_true]

theorem write_refused (sink : BoundedText) (text : String) (refused : (write sink text).1 = false) :
    (write sink text).2 = sink := by
  have large : ¬ sink.text.utf8ByteSize + text.utf8ByteSize ≤ sink.limit := fun fits =>
    Bool.false_ne_true (refused.symm.trans ((write_takes sink text).mpr fits))
  simp only [write, large, if_false]

theorem fits_cons (sink : BoundedText) (text : String) (texts : List String) :
    sink.Fits (text :: texts) ↔ Fits ⟨sink.text ++ text, sink.limit⟩ texts := by
  rw [Fits, Fits, String.join_cons, String.append_assoc]

theorem fits_first (sink : BoundedText) (text : String) (texts : List String) (fits : sink.Fits (text :: texts)) :
    (write sink text).1 = true := by
  rw [Fits, String.join_cons, String.utf8ByteSize_append, String.utf8ByteSize_append] at fits
  exact (write_takes sink text).mpr (by lia)

theorem breaks_longest (texts : List String) (sink : BoundedText) (k : Nat)
    (breaks : Printout.Breaks write sink texts k) :
    (k = 0 ∨ sink.Fits (texts.take k)) ∧ ∀ j ≤ texts.length, sink.Fits (texts.take j) → j ≤ k := by
  induction texts generalizing sink k with
  | nil =>
      exact ⟨.inl ((Printout.breaks_nil write sink k).mp breaks), fun j bound _ => Nat.le_trans bound (Nat.zero_le k)⟩
  | cons text rest ih =>
      rcases (Printout.breaks_cons write sink text rest k).mp breaks with ⟨refused, rfl⟩ | ⟨took, k, rfl, later⟩
      · refine ⟨.inl rfl, fun j _ fits => ?_⟩
        cases j with
        | zero => exact Nat.le_refl 0
        | succ j => exact absurd (refused.symm.trans (fits_first sink text _ fits)) Bool.false_ne_true
      · rw [write_taken sink text took] at later
        obtain ⟨part, longest⟩ := ih _ k later
        constructor
        · refine .inr ?_
          rw [List.take_succ_cons, fits_cons]
          rcases part with rfl | fits
          · have first := (write_takes sink text).mp took
            rw [Fits, List.take_zero, String.join_nil, String.append_empty, String.utf8ByteSize_append]
            exact first
          · exact fits
        · intro j bound fits
          cases j with
          | zero => exact Nat.zero_le _
          | succ j =>
              rw [List.take_succ_cons, fits_cons] at fits
              exact Nat.succ_le_succ (longest j (Nat.le_of_succ_le_succ bound) fits)

end BoundedText

-- The texts that f is printed as: a letter for a constant, and otherwise the
-- groups that cover it, those of "false" first wherever two paths part.
structure Listed (store : Store) (table : BlockTable) (f : Ref) (texts : List String) : Prop where
  zero : f = 0 → texts = ["F"]
  one : f = 1 → texts = ["T"]
  groups : 2 ≤ f → ∃ printed, Covers store table f printed ∧ (printed.map (·.1)).Pairwise Path.Before ∧
    texts = printed.map fun (_, group) => groupText group

theorem paths_listed (store : Store) (sound : store.Sound) (table : BlockTable) (numbered : table.Numbered) (f : Ref)
    (large : 2 ≤ f) (live : store.Live f) :
    Listed store table f ((store.paths f).map fun path => groupText (table.group path.reverse)) := by
  constructor
  case zero => exact fun same => absurd large (by lia)
  case one => exact fun same => absurd large (by lia)
  case groups =>
    refine fun _ => ⟨_, groups_cover store sound table numbered f live, ?_, ?_⟩
    · rw [List.map_map]
      exact (List.map_id _).symm ▸ store.paths_before sound f live
    · rw [List.map_map]
      rfl

theorem terminal_listed (store : Store) (table : BlockTable) (f : Ref) (small : f ≤ 1) :
    Listed store table f [if f.isZero then "F" else "T"] := by
  constructor
  case zero =>
    rintro rfl
    rfl
  case one =>
    rintro rfl
    rfl
  case groups => exact fun large => absurd large (by lia)

namespace Workspace

-- Printing writes the texts in their order and stops at the first refusal.
-- What shows afterwards is what the sink has taken; the workspace stays as it is.
structure Attempts (ws : Workspace) (m t : Nat) (f : Ref) (texts : List String) : Prop where
  breaks : ∀ {σ : Type} (write : σ → String → Bool × σ) (sink : σ), ∃ k, Printout.Breaks write sink texts k
  stopped : ∀ {σ : Type} (write : σ → String → Bool × σ) (sink : σ) (k : Nat), Printout.Breaks write sink texts k →
    (ws.printing m t write sink f).1 = Printout.outcome k texts ∧
      (ws.printing m t write sink f).2.sink = Printout.fed write sink (texts.take (k + 1))
  text : ∀ {σ : Type} (write : σ → String → Bool × σ) (view : σ → String),
    (∀ sink text, (write sink text).1 = true → view (write sink text).2 = view sink ++ text) →
    (∀ sink text, (write sink text).1 = false → view (write sink text).2 = view sink) →
    ∀ sink k, Printout.Breaks write sink texts k →
      view (ws.printing m t write sink f).2.sink = view sink ++ String.join (texts.take k)
  bounded : ∀ sink : BoundedText, ∃ k ≤ texts.length,
    (ws.look (.printInto m t f sink)).1 =
      .printed (Printout.outcome k texts) (sink.text ++ String.join (texts.take k)) ∧
    (k = 0 ∨ sink.Fits (texts.take k)) ∧ ∀ j ≤ texts.length, sink.Fits (texts.take j) → j ≤ k
  string : (ws.look (.print m t f)).1 = .printed (.ok ()) (String.join texts)
  still : (ws.turn (.look (.print m t f))).workspace = ws ∧
    ∀ sink, (ws.turn (.look (.printInto m t f sink))).workspace = ws

theorem stops_attempts (ws : Workspace) (m t : Nat) (store : Store) (table : BlockTable)
    (found : ws.stores[m]? = some store) (tabled : ws.tables[t]? = some table) (f : Ref) (texts : List String)
    (stops : ∀ {σ : Type} (write : σ → String → Bool × σ) (sink : σ) (k : Nat), Printout.Breaks write sink texts k →
      Printout.Stops write sink texts k (table.print store write f ⟨sink, []⟩)) : ws.Attempts m t f texts := by
  have stopped : ∀ {σ : Type} (write : σ → String → Bool × σ) (sink : σ) (k : Nat),
      Printout.Breaks write sink texts k →
      (ws.printing m t write sink f).1 = Printout.outcome k texts ∧
        (ws.printing m t write sink f).2.sink = Printout.fed write sink (texts.take (k + 1)) := by
    intro σ write sink k breaks
    obtain ⟨offered, run⟩ := stops write sink k breaks
    simp only [printing, Workspace.table, Workspace.store, found, tabled, run]
    cases Printout.outcome k texts <;> exact ⟨rfl, rfl⟩
  have text : ∀ {σ : Type} (write : σ → String → Bool × σ) (view : σ → String),
      (∀ sink text, (write sink text).1 = true → view (write sink text).2 = view sink ++ text) →
      (∀ sink text, (write sink text).1 = false → view (write sink text).2 = view sink) →
      ∀ sink k, Printout.Breaks write sink texts k →
        view (ws.printing m t write sink f).2.sink = view sink ++ String.join (texts.take k) := by
    intro σ write view takes refuses sink k breaks
    rw [(stopped write sink k breaks).2]
    exact Printout.fed_text write view takes refuses texts sink k breaks
  constructor
  case breaks => exact fun write sink => Printout.breaks_exist write sink texts
  case stopped => exact stopped
  case text => exact text
  case bounded =>
    intro sink
    obtain ⟨k, breaks⟩ := Printout.breaks_exist BoundedText.write sink texts
    obtain ⟨part, longest⟩ := sink.breaks_longest texts k breaks
    refine ⟨k, breaks.inside, ?_, part, longest⟩
    have written := text BoundedText.write BoundedText.text
      (fun sink text took => congrArg BoundedText.text (BoundedText.write_taken sink text took))
      (fun sink text refused => congrArg BoundedText.text (BoundedText.write_refused sink text refused))
      sink k breaks
    rw [← written, ← (stopped BoundedText.write sink k breaks).1]
    rfl
  case string =>
    have breaks := Printout.breaks_never writeText "" texts fun _ _ => rfl
    have written := text writeText id (fun _ _ _ => rfl)
      (fun _ _ refused => absurd refused.symm Bool.false_ne_true) "" texts.length breaks
    have whole : (ws.printing m t writeText "" f).2.sink = String.join texts := by
      rw [List.take_length] at written
      exact written.trans String.empty_append
    have done : (ws.printing m t writeText "" f).1 = .ok () := by
      rw [(stopped writeText "" texts.length breaks).1, Printout.outcome, if_pos rfl]
    rw [← whole, ← done]
    rfl
  case still => exact ⟨rfl, fun _ => rfl⟩

theorem print_attempts (ws : Workspace) (reachable : ws.Reachable) (m t : Nat) (store : Store) (table : BlockTable)
    (found : ws.stores[m]? = some store) (tabled : ws.tables[t]? = some table)
    (owned : table.owner = some store.id) (f : Ref) (live : store.Live f) :
    ∃ texts, Listed store table f texts ∧ ws.Attempts m t f texts := by
  have sound := reachable_sound ws reachable m store found
  have numbered := reachable_numbered ws reachable t table tabled
  rcases Ref.terminal_or f with small | large
  · refine ⟨_, terminal_listed store table f small, stops_attempts ws m t store table found tabled f _ ?_⟩
    intro σ write sink k breaks
    rw [print_run store table owned write f, if_pos (Ref.terminal_true f small)]
    exact Printout.offer_stops write _ sink [] k breaks
  · refine ⟨_, paths_listed store sound table numbered f large live,
      stops_attempts ws m t store table found tabled f _ ?_⟩
    intro σ write sink k breaks
    rw [print_run store table owned write f, Ref.terminal_false f large, if_neg Bool.false_ne_true,
      table.print_from_paths store sound write f live]
    exact Printout.offers_stop write _ sink [] k breaks

-- Of the four groups of a function, whose paths share nodes, two fit.
theorem crossing_attempts :
    ∃ (ws : Workspace) (store : Store) (table : BlockTable) (texts : List String) (k : Nat),
      ws = empty.run [.newStore {}, .newTable, .extend 0 0 [4, 4], .encode 0 0 (.value 0 0),
        .encode 0 0 (.value 1 1), .construct 0 (.combine .or 8 10)] ∧
      ws.stores[0]? = some store ∧ ws.tables[0]? = some table ∧ table.owner = some store.id ∧ store.Live 13 ∧
      Listed store table 13 texts ∧ ws.Attempts 0 0 13 texts ∧
      String.join texts = "<0:0, 1:0/1><0:1, 1:1><0:0, 1:2/3><0:2/3, 1:1>" ∧
      Printout.Breaks BoundedText.write ⟨"> ", 30⟩ texts k ∧
      Printout.outcome k texts = .error (.refused .sinkFull) ∧
      "> " ++ String.join (texts.take k) = "> <0:0, 1:0/1><0:1, 1:1>" := by
  obtain ⟨ws, built⟩ : ∃ ws, ws = empty.run [.newStore {}, .newTable, .extend 0 0 [4, 4], .encode 0 0 (.value 0 0),
    .encode 0 0 (.value 1 1), .construct 0 (.combine .or 8 10)] := ⟨_, rfl⟩
  have kept : ws.stores[0]?.any (fun store => decide (store.Live 13 ∧ store.id = 1)) = true := by
    rw [built]
    decide +kernel
  have bound : ws.tables[0]?.any (fun table => decide (table.owner = some 1)) = true := by
    rw [built]
    decide +kernel
  have whole : (Said.told (ws.look (.print 0 0 13)).1).text =
      some "<0:0, 1:0/1><0:1, 1:1><0:0, 1:2/3><0:2/3, 1:1>" := by
    rw [built]
    decide +kernel
  have part : (ws.printing 0 0 BoundedText.write ⟨"> ", 30⟩ 13).1 = .error (.refused .sinkFull) ∧
      (ws.printing 0 0 BoundedText.write ⟨"> ", 30⟩ 13).2.sink.text = "> <0:0, 1:0/1><0:1, 1:1>" := by
    rw [built]
    decide +kernel
  obtain ⟨store, found, known⟩ := (Option.any_eq_true _ _).mp kept
  obtain ⟨live, id⟩ := of_decide_eq_true known
  obtain ⟨table, tabled, known⟩ := (Option.any_eq_true _ _).mp bound
  have owned : table.owner = some store.id := id ▸ of_decide_eq_true known
  obtain ⟨texts, listed, attempts⟩ := print_attempts ws ⟨_, built.symm⟩ 0 0 store table found tabled owned 13 live
  obtain ⟨k, breaks⟩ := attempts.breaks BoundedText.write ⟨"> ", 30⟩
  have written := attempts.text BoundedText.write BoundedText.text
    (fun sink text took => congrArg BoundedText.text (BoundedText.write_taken sink text took))
    (fun sink text refused => congrArg BoundedText.text (BoundedText.write_refused sink text refused)) _ k breaks
  rw [(attempts.stopped _ _ k breaks).1, written] at part
  refine ⟨ws, store, table, texts, k, built, found, tabled, owned, live, listed, attempts, ?_, breaks, part.1, part.2⟩
  rw [attempts.string] at whole
  exact Option.some.inj whole

end Workspace
end DomainDiagram
