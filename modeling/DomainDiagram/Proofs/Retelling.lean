import DomainDiagram.Proofs.Echoing

set_option autoImplicit false

namespace DomainDiagram

open Store

namespace Workspace

structure Bears (ws : Workspace) (names : Renaming) : Prop where
  drawn : names.id < ws.nextRenaming
  alone : ∀ (q : Nat) (other : Renaming), ws.renamings[q]? = some other → other.id = names.id → other = names

def Individual (ws : Workspace) : Prop :=
  ∀ (p : Nat) (names : Renaming), ws.renamings[p]? = some names → ws.Bears names

theorem redraws_origin (old new : Workspace) (redraws : Redraws old new) (p : Nat) (names : Renaming)
    (found : new.renamings[p]? = some names) :
    (∃ q : Nat, old.renamings[q]? = some names) ∨
      ((old.nextRenaming ≤ names.id ∧ names.id < new.nextRenaming) ∧
        ∀ (q : Nat) (other : Renaming), new.renamings[q]? = some other →
          (∃ r : Nat, old.renamings[r]? = some other) ∨ other = names) := by
  rcases redraws with ⟨same, _⟩ | ⟨fresh, others, drawn⟩
  · exact .inl ⟨p, same ▸ found⟩
  · rcases others p names found with earlier | rfl
    · exact .inl earlier
    · exact drawn.imp (fun old => old.1) fun new => ⟨new, others⟩

theorem bears_redraws (old new : Workspace) (redraws : Redraws old new) (names : Renaming) (bears : old.Bears names) :
    new.Bears names := by
  refine ⟨Nat.lt_of_lt_of_le bears.drawn (redraws_drawn old new redraws), fun q other found same => ?_⟩
  rcases redraws_origin old new redraws q other found with ⟨r, earlier⟩ | ⟨⟨above, _⟩, _⟩
  · exact bears.alone r other earlier same
  · exact absurd bears.drawn (Nat.not_lt_of_le (same ▸ above))

theorem individual_redraws (old new : Workspace) (redraws : Redraws old new) (individual : old.Individual) :
    new.Individual := by
  intro p names found
  rcases redraws_origin old new redraws p names found with ⟨q, earlier⟩ | ⟨⟨above, below⟩, others⟩
  · exact bears_redraws old new redraws names (individual q names earlier)
  · refine ⟨below, fun q other present same => ?_⟩
    rcases others q other present with ⟨r, earlier⟩ | equal
    · exact absurd (individual r other earlier).drawn (Nat.not_lt_of_le (same ▸ above))
    · exact equal

theorem run_bears (ws : Workspace) (commands : List Command) (names : Renaming) (bears : ws.Bears names) :
    (ws.run commands).Bears names := by
  induction commands generalizing ws with
  | nil => exact bears
  | cons command rest ih => exact ih _ (bears_redraws ws _ (perform_redraws ws command) names bears)

theorem run_individual (ws : Workspace) (commands : List Command) (individual : ws.Individual) :
    (ws.run commands).Individual := by
  induction commands generalizing ws with
  | nil => exact individual
  | cons command rest ih => exact ih _ (individual_redraws ws _ (perform_redraws ws command) individual)

theorem reachable_bears (ws : Workspace) (reachable : ws.Reachable) (p : Nat) (names : Renaming)
    (current : ws.renamings[p]? = some names) (commands : List Command) : (ws.run commands).Bears names := by
  obtain ⟨before, rfl⟩ := reachable
  exact run_bears _ commands names (run_individual empty before nofun p names current)

-- The second command asks for what the first has asked for: in the same words,
-- with the operands or the blocks of a comparison exchanged, or with a renaming
-- of the same identity. The blocks are those that they were, and counts that
-- will be held have room for it.
inductive Retells (m : Nat) (before after : Workspace) : Command → Command → Prop where
  | construct (construction : Construction) :
      Retells m before after (.construct m construction) (.construct m construction)
  | swapped (op : Connective) (f g : Ref) :
      Retells m before after (.construct m (.combine op f g)) (.construct m (.combine op g f))
  | rename (p q : Nat) (f : Ref) (names other : Renaming) (was : before.renamings[p]? = some names)
      (current : after.renamings[q]? = some other) (same : other.id = names.id) :
      Retells m before after (.rename m p f) (.rename m q f)
  | encode (t : Nat) (encoding again : Encoding) (restates : encoding.Restates again) (old new : BlockTable)
      (was : before.tables[t]? = some old) (tabled : after.tables[t]? = some new) (store : Store)
      (found : after.stores[m]? = some store) (unchanged : old.Unchanged store.id new encoding.indices)
      (room : store.Roomy) :
      Retells m before after (.encode m t encoding) (.encode m t again)

def Recalls (ws : Workspace) (m : Nat) (command : Command) (r : Ref) : Prop :=
  ∃ (store : Store) (memo : Memo), ws.stores[m]? = some store ∧
    ws.perform command = ⟨.ok (.ref r), [], ws.setStore m { store with memo }⟩

theorem on_store_given (ws : Workspace) (m : Nat) (request : Request Ref) (reply : Reply)
    (asked : reply = ws.onStore m request fun f _ ws => ⟨.ok (.ref f), [], ws⟩) (r : Ref)
    (done : reply.outcome = .ok (.ref r)) :
    ∃ store next, ws.stores[m]? = some store ∧ request store = .ok r next ∧
      reply.workspace.stores[m]? = some next := by
  rw [asked] at done ⊢
  obtain ⟨store, next, f, found, ran, answered⟩ := on_store_done ws m _ _ (.ref r) done
  rw [answered] at done ⊢
  obtain rfl := Answer.ref.inj (Except.ok.inj done)
  exact ⟨store, next, found, ran, set_store_found ws m store next found⟩

section

variable (book : Book) (ws later : Workspace) (trusted : ws.Trusted book) (laterTrusted : later.Trusted book) (m : Nat)
  (r : Ref)

include trusted laterTrusted

theorem construct_again (act again : Action Ref) (repeats : Action.Repeats book act again)
    (done : (ws.construct m act).outcome = .ok (.ref r))
    (kept : ∀ next, (ws.construct m act).workspace.stores[m]? = some next →
      ∃ last, later.stores[m]? = some last ∧ Extends next last) :
    ∃ (store : Store) (memo : Memo), later.stores[m]? = some store ∧
      later.construct m again = ⟨.ok (.ref r), [], later.setStore m { store with memo }⟩ := by
  obtain ⟨store, next, found, ran, left⟩ := on_store_given ws m _ _ rfl r done
  obtain ⟨last, lastFound, grown⟩ := kept next left
  obtain ⟨_, outcome, ⟨memo, rfl⟩, _⟩ := repeats.replays store next r (trusted m store found)
    (Action.perform_done act store next r ran) last grown (laterTrusted m last lastFound)
  exact ⟨last, memo, lastFound, construct_reply later m last _ again r lastFound outcome⟩

theorem encode_again (t : Nat) (encoding again : Encoding) (restates : encoding.Restates again) (old new : BlockTable)
    (was : ws.tables[t]? = some old) (tabled : later.tables[t]? = some new) (last : Store)
    (lastFound : later.stores[m]? = some last) (unchanged : old.Unchanged last.id new encoding.indices)
    (room : last.Roomy) (done : (ws.perform (.encode m t encoding)).outcome = .ok (.ref r))
    (kept : ∀ next, (ws.perform (.encode m t encoding)).workspace.stores[m]? = some next → Extends next last) :
    ∃ memo : Memo, later.perform (.encode m t again) =
      ⟨.ok (.ref r), [], later.setStore m { last with memo }⟩ := by
  obtain ⟨store, next, found, ran, left⟩ := on_store_given ws m (encoding.run old) _
    (by simp only [perform, encode, Workspace.table, was, Workspace.found]) r done
  obtain ⟨final, outcome, memo, rfl⟩ := Encoding.run_again book old new encoding again restates store next last r
    (trusted m store found) ran (kept next left) (laterTrusted m last lastFound) room unchanged
  exact ⟨memo, encode_reply later m t again last _ new r lastFound tabled outcome⟩

theorem retells_recalls (booked : ∀ (p : Nat) (names : Renaming), ws.renamings[p]? = some names →
      book names.id = some names.image)
    (bears : ∀ (p : Nat) (names : Renaming), ws.renamings[p]? = some names → later.Bears names)
    (first again : Command) (retells : Retells m ws later first again)
    (done : (ws.perform first).outcome = .ok (.ref r))
    (kept : ∀ next, (ws.perform first).workspace.stores[m]? = some next →
      ∃ last, later.stores[m]? = some last ∧ Extends next last) : later.Recalls m again r := by
  cases retells with
  | construct construction =>
      exact construct_again book ws later trusted laterTrusted m r _ _ (Action.repeats_construction book construction)
        done kept
  | swapped op f g =>
      exact construct_again book ws later trusted laterTrusted m r _ _ (Action.repeats_commuted book op f g) done kept
  | rename p q f names other was current same =>
      obtain rfl := (bears p names was).alone q other current same
      rw [rename_current ws m p f other was] at done kept
      rw [Recalls, rename_current later m q f other current]
      exact construct_again book ws later trusted laterTrusted m r _ _
        (Action.repeats_rename book other (booked p other was) f) done kept
  | encode t encoding again restates old new was tabled store found unchanged room =>
      obtain ⟨memo, recalled⟩ := encode_again book ws later trusted laterTrusted m r t encoding again restates old new
        was tabled store found unchanged room done fun next left => by
          obtain ⟨last, lastFound, grown⟩ := kept next left
          exact Option.some.inj (found.symm.trans lastFound) ▸ grown
      exact ⟨store, memo, found, recalled⟩

end

theorem reachable_recalls (ws : Workspace) (reachable : ws.Reachable) (m : Nat) (first again : Command) (r : Ref)
    (done : (ws.perform first).outcome = .ok (.ref r)) (commands : List Command)
    (spared : ∀ command ∈ commands, command ≠ .collect m)
    (retells : Retells m ws ((ws.perform first).workspace.run commands) first again) :
    ((ws.perform first).workspace.run commands).Recalls m again r := by
  obtain ⟨start, startBooked, startTrusted⟩ := reachable_trusted ws reachable
  obtain ⟨book, entered, _, laterTrusted⟩ := run_trusted ws start startBooked startTrusted (first :: commands)
  have trusted : ws.Trusted book := fun k store found =>
    coherent_book store start book entered (startTrusted k store found)
  refine retells_recalls book ws _ trusted laterTrusted m r ?_ ?_ first again retells done ?_
  · exact fun p names current => entered names.id names.image (startBooked.current p names current)
  · exact fun p names current => reachable_bears ws reachable p names current (first :: commands)
  · exact fun next found => run_extends _ (reachable_perform ws reachable first) m commands spared next found

-- Two blocks are compared from the other side when of all that was built for
-- the first comparison nothing is remembered any more.
theorem turned_recalled :
    ∃ (ws later : Workspace) (store : Store),
      ws = empty.run [.newStore { cacheBits := 0 }, .newTable, .extend 0 0 [3, 3]] ∧
      (ws.perform (.encode 0 0 (.equal 0 1))).outcome = .ok (.ref 14) ∧
      later = (ws.perform (.encode 0 0 (.equal 0 1))).workspace.run
        [.construct 0 (.literal 1 false), .encode 0 0 (.value 1 2), .newVars 0 1] ∧
      later.stores[0]? = some store ∧ store.memo.slots.toList.map (·.2.2) = [16] ∧
      later.Recalls 0 (.encode 0 0 (.equal 1 0)) 14 := by
  obtain ⟨ws, built⟩ : ∃ ws, ws = empty.run [.newStore { cacheBits := 0 }, .newTable, .extend 0 0 [3, 3]] := ⟨_, rfl⟩
  obtain ⟨later, went⟩ : ∃ later, later = (ws.perform (.encode 0 0 (.equal 0 1))).workspace.run
    [.construct 0 (.literal 1 false), .encode 0 0 (.value 1 2), .newVars 0 1] := ⟨_, rfl⟩
  have done : (ws.perform (.encode 0 0 (.equal 0 1))).outcome = .ok (.ref 14) := by
    rw [built]
    decide +kernel
  have counts : later.stores[0]?.any (fun store => decide (store.id = 1 ∧ (∀ count ∈ store.counts.toList, count ≤ 1) ∧
      store.memo.slots.toList.map (·.2.2) = [16])) = true := by
    rw [went, built]
    decide +kernel
  have blocks : ws.tables[0]?.any (fun old => later.tables[0]?.any fun new => decide (new.owner = some 1 ∧
      ∀ i ∈ [0, 1], new.blocks[i]? = old.blocks[i]?)) = true := by
    rw [went, built]
    decide +kernel
  obtain ⟨store, found, known⟩ := (Option.any_eq_true _ _).mp counts
  obtain ⟨id, small, remembered⟩ := of_decide_eq_true known
  obtain ⟨old, was, known⟩ := (Option.any_eq_true _ _).mp blocks
  obtain ⟨new, tabled, known⟩ := (Option.any_eq_true _ _).mp known
  obtain ⟨owned, same⟩ := of_decide_eq_true known
  have retells : Retells 0 ws later (.encode 0 0 (.equal 0 1)) (.encode 0 0 (.equal 1 0)) :=
    .encode 0 _ _ (.turned 0 1) old new was tabled store found ⟨.inr (id ▸ owned), same⟩
      (store.roomy_of_counts 1 (by decide) small)
  refine ⟨ws, later, store, built, done, went, found, remembered, ?_⟩
  rw [went] at retells ⊢
  exact reachable_recalls ws ⟨_, built.symm⟩ 0 _ _ 14 done _ (by simp) retells

end Workspace
end DomainDiagram
