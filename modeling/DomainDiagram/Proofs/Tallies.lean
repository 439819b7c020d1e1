import DomainDiagram.Proofs.Tables

set_option autoImplicit false

namespace DomainDiagram

def Fault.overflows : Fault → Bool
  | .countOverflow _ => true
  | _ => false

def Failure.overflows : Failure → Bool
  | .broken fault => fault.overflows
  | _ => false

-- One hold on f, as it shows in the count of g. Terminals are not counted.
def Ref.once (f g : Ref) : Nat := if 2 ≤ f ∧ g = f then 1 else 0

@[simp] theorem Ref.once_terminal (f : Ref) (small : f ≤ 1) (g : Ref) : f.once g = 0 := by
  rw [Ref.once, if_neg fun large => Nat.not_le_of_lt (Nat.lt_succ_of_le small) large.1]

namespace Store

def tally (store : Store) (f : Ref) : Nat := (store.counts[f]?).getD 0

theorem tally_built (old new : Store) (built : Builds old new) (f : Ref) : new.tally f = old.tally f := by
  obtain ⟨added, counts⟩ := built.counts
  rw [tally, tally, counts, Array.getElem?_append]
  split
  · rfl
  · next outside =>
      have none : old.counts[f]? = none := Array.getElem?_eq_none_iff.mpr (Nat.le_of_not_lt outside)
      rw [none, Array.getElem?_replicate]
      split <;> rfl

theorem tally_recount (store : Store) (f : Ref) (old count : Nat) (counted : store.counts[f]? = some old)
    (g : Ref) : tally { store with counts := store.counts.setIfInBounds f count } g =
      if g = f then count else store.tally g := by
  have inside : f < store.counts.size := (Array.getElem?_eq_some_iff.mp counted).1
  by_cases same : g = f
  · subst same
    rw [if_pos rfl, tally, Array.getElem?_setIfInBounds_self_of_lt inside]
    rfl
  · rw [if_neg same, tally, tally, Array.getElem?_setIfInBounds_ne (Ne.symm same)]

end Store

namespace Action

open Store

def Built {α : Type} (book : Book) (act : Action α) : Prop :=
  ∀ store : Store, store.Coherent book →
    Ends act store (fun _ next => Advances book store next) (fun _ next => Advances book store next)

theorem built_pure {α : Type} (book : Book) (a : α) : Built book (pure a) :=
  fun store coherent => advances_refl book store coherent

theorem built_bind {α β : Type} (book : Book) (act : Action α) (next : α → Action β)
    (first : Built book act) (rest : ∀ a, Built book (next a)) : Built book (act >>= next) := by
  intro store coherent
  refine ends_bind act next store _ _ _ (first store coherent) fun a later advanced => ?_
  exact ends_mono _ later _ _ _ _ (rest a later advanced.coherent)
    (fun _ final further => advances_trans book store later final advanced further)
    (fun _ final further => advances_trans book store later final advanced further)

theorem built_composes (book : Book) : Composes (Built book) := ⟨built_pure book, built_bind book⟩

theorem built_advance {α : Type} (book : Book) (act : Action α) (holds : Store → α → Store → Prop)
    (failed : Store → Prop)
    (ends : ∀ store, store.Coherent book →
      Ends act store (fun a next => Advances book store next ∧ holds store a next)
        (fun _ next => Advances book store next ∧ failed store)) : Built book act := by
  intro store coherent
  exact ends_mono act store _ _ _ _ (ends store coherent) (fun _ _ known => known.1) (fun _ _ known => known.1)

theorem built_branch (book : Book) (v : Var) (low high : Ref) : Built book (branch v low high) :=
  built_advance book _ (fun _ r next => next.Made v low high r) (fun store => ¬ store.Admits v low high)
    fun store coherent => advance_branch book store coherent v low high

theorem built_literal (book : Book) (v : Var) (value : Bool) : Built book (literal v value) := by
  cases value with
  | true => exact literal_true v ▸ built_branch book v 0 1
  | false => exact literal_false v ▸ built_branch book v 1 0

theorem built_combine (book : Book) (op : Connective) (f g : Ref) : Built book (combine op f g) :=
  built_advance book _ (fun _ r next => next.Combines op f g r) (fun store => ¬ ∀ h ∈ [f, g], store.Live h)
    fun store coherent => advance_combine book op store coherent f g

theorem built_cube (book : Book) (vars : List Var) : Built book (cube vars) :=
  composes_foldrM (built_composes book) (fun v rest => branch v 0 rest) (fun v rest => built_branch book v 0 rest)
    (Var.sorted vars) 1

theorem built_rename (book : Book) (names : Renaming) (named : book names.id = some names.image) (f : Ref) :
    Built book (rename names f) := by
  cases empty : names.isEmpty with
  | true => exact rename_empty names f empty ▸ built_pure book f
  | false =>
      exact built_advance book _ (fun _ r next => next.Renames names.image f r)
        (fun store => ¬ store.Maps names.image f)
        fun store coherent => advance_rename book names named store coherent f empty

theorem built_construction (book : Book) (construction : Construction) : Built book construction.run := by
  cases construction with
  | literal v value => exact built_literal book v value
  | branch v low high => exact built_branch book v low high
  | combine op f g => exact built_combine book op f g
  | negate f =>
      exact built_advance book _ (fun _ r next => next.Negates f r) (fun store => ¬ ∀ h ∈ [f], store.Live h)
        fun store coherent => advance_negate book store coherent f
  | choose f g h =>
      exact built_advance book _ (fun _ r next => next.Chooses f g h r)
        (fun store => ¬ ∀ a ∈ [f, g, h], store.Live a)
        fun store coherent => advance_choose book store coherent f g h
  | conjunction fs => exact composes_foldlM (built_composes book) (combine .and) (built_combine book .and) fs 1
  | disjunction fs => exact composes_foldlM (built_composes book) (combine .or) (built_combine book .or) fs 0
  | cube vars => exact built_cube book vars
  | quantify q f set =>
      exact built_advance book _ (fun _ r next => next.Quantifies q f set r)
        (fun store => ¬ ∀ h ∈ [f, set], store.Live h)
        fun store coherent => advance_quantify book q store coherent f set

-- What an action gains and spends in holds. When it breaks off, no more than
-- it may spend is gone.
def Charges {ε α : Type} (book : Book) (act : EStateM ε Store α) (gained : α → Ref → Nat)
    (spent : Ref → Nat) : Prop :=
  ∀ store : Store, store.Coherent book → Ends act store
    (fun a next => (Follows store next ∧ next.Coherent book) ∧
      ∀ f, next.tally f + spent f = store.tally f + gained a f)
    (fun _ next => (Follows store next ∧ next.Coherent book) ∧ ∀ f, store.tally f ≤ next.tally f + spent f)

theorem charges_pure {ε α : Type} (book : Book) (a : α) (gained : Ref → Nat) :
    Charges (ε := ε) book (pure a) (fun _ => gained) gained :=
  fun store coherent => ⟨⟨follows_refl store, coherent⟩, fun _ => rfl⟩

theorem charges_bind {ε α β : Type} (book : Book) (act : EStateM ε Store α) (next : α → EStateM ε Store β)
    (firstGained : α → Ref → Nat) (firstSpent : Ref → Nat) (restGained : α → β → Ref → Nat)
    (restSpent : α → Ref → Nat) (gained : β → Ref → Nat) (spent : Ref → Nat)
    (first : Charges book act firstGained firstSpent)
    (rest : ∀ a, Charges book (next a) (restGained a) (restSpent a))
    (balance : ∀ a b f, firstGained a f + restGained a b f + spent f = firstSpent f + restSpent a f + gained b f)
    (early : ∀ f, firstSpent f ≤ spent f)
    (late : ∀ a f, firstSpent f + restSpent a f ≤ firstGained a f + spent f) :
    Charges book (act >>= next) gained spent := by
  intro store coherent
  have broken := ends_mono act store _ _ _ _ (first store coherent) (fun _ _ known => known)
    fun _ later ⟨kept, tally⟩ => (⟨kept, fun f => Nat.le_trans (tally f) (Nat.add_le_add_left (early f) _)⟩ :
      (Follows store later ∧ later.Coherent book) ∧ ∀ f, store.tally f ≤ later.tally f + spent f)
  refine ends_bind act next store _ _ _ broken fun a later ⟨⟨follows, laterCoherent⟩, tally⟩ => ?_
  refine ends_mono _ later _ _ _ _ (rest a later laterCoherent) ?_ ?_
  · rintro b final ⟨⟨further, finalCoherent⟩, finalTally⟩
    refine ⟨⟨follows_trans store later final follows further, finalCoherent⟩, fun f => ?_⟩
    have start := tally f
    have rest := finalTally f
    have total := balance a b f
    lia
  · rintro _ final ⟨⟨further, finalCoherent⟩, finalTally⟩
    refine ⟨⟨follows_trans store later final follows further, finalCoherent⟩, fun f => ?_⟩
    have start := tally f
    have rest := finalTally f
    have total := late a f
    lia

theorem charges_built {α : Type} (book : Book) (act : Action α) (built : Built book act) :
    Charges book act (fun _ _ => 0) fun _ => 0 := by
  intro store coherent
  have same : ∀ next, Advances book store next → (Follows store next ∧ next.Coherent book) ∧
      ∀ f, next.tally f = store.tally f := fun next advanced =>
    ⟨⟨advances_follows book store next advanced, advanced.coherent⟩, tally_built store next advanced.built⟩
  refine ends_mono act store _ _ _ _ (built store coherent) (fun _ next advanced => same next advanced) ?_
  exact fun _ next advanced => ⟨(same next advanced).1, fun f => Nat.le_of_eq ((same next advanced).2 f).symm⟩

theorem ends_and {ε α : Type} (act : EStateM ε Store α) (store : Store) (done also : α → Store → Prop)
    (broken failed : ε → Store → Prop) (known : Ends act store done broken) (more : Ends act store also failed) :
    Ends act store (fun a next => done a next ∧ also a next)
      (fun fault next => broken fault next ∧ failed fault next) := by
  unfold Ends at known more ⊢
  cases outcome : act store <;> simp only [outcome] at known more <;> exact ⟨known, more⟩

theorem ends_then {ε α β : Type} (act : EStateM ε Store α) (next : α → EStateM ε Store β) (store later : Store)
    (a : α) (done : β → Store → Prop) (broken : ε → Store → Prop) (first : act store = .ok a later)
    (rest : Ends (next a) later done broken) : Ends (act >>= next) store done broken := by
  have step : (act >>= next) store = next a later := by simp only [bind, EStateM.bind, first]
  simpa only [Ends, step] using rest

theorem hold_tally (store : Store) (f : Ref) :
    Ends (hold f) store (fun r next => r = f ∧ ∀ g, next.tally g = store.tally g + f.once g)
      (fun _ next => next = store) := by
  unfold Ends hold
  rcases Ref.terminal_or f with small | large
  · rw [if_pos (Ref.terminal_true f small)]
    exact ⟨rfl, fun g => by simp [small]⟩
  · rw [if_neg (by simp [large])]
    cases slot : store.arena[f]? with
    | none => rfl
    | some kind =>
        cases kind with
        | free => rfl
        | live node =>
            cases counted : store.counts[f]? with
            | none => rfl
            | some count =>
                by_cases fits : count + 1 < countBound
                · simp only [if_pos fits]
                  refine ⟨trivial, fun g => ?_⟩
                  rw [tally_recount store f count (count + 1) counted, Ref.once]
                  by_cases same : g = f
                  · rw [if_pos same, if_pos ⟨large, same⟩, same, tally, counted]
                    rfl
                  · rw [if_neg same, if_neg fun both => same both.2]
                    rfl
                · simp only [if_neg fits]

theorem hold_breaks (store : Store) (sound : store.Sound) (f : Ref) (live : store.Live f) :
    Ends (hold f) store (fun _ _ => True)
      (fun fault _ => fault = .countOverflow f ∧ countBound ≤ store.tally f + 1) := by
  unfold Ends hold
  rcases live with small | ⟨node, tests⟩
  · rw [if_pos (Ref.terminal_true f small)]
    trivial
  · have inside : f < store.counts.size := by
      rw [sound.counted]
      exact (Array.getElem?_eq_some_iff.mp tests.2).1
    have counted : store.counts[f]? = some store.counts[f] := Array.getElem?_eq_getElem inside
    have large : ¬ f.isTerminal = true := by simp [tests.1]
    rw [if_neg large, tests.2, counted]
    by_cases fits : store.counts[f] + 1 < countBound
    · simp only [if_pos fits]
    · simp only [if_neg fits]
      refine ⟨trivial, ?_⟩
      rw [tally, counted]
      exact Nat.le_of_not_lt fits

theorem release_tally (store : Store) (f : Ref) :
    Ends (release f) store (fun _ next => ∀ g, next.tally g + f.once g = store.tally g)
      (fun _ next => next = store ∧ 2 ≤ f ∧ store.tally f = 0) := by
  unfold Ends release
  rcases Ref.terminal_or f with small | large
  · rw [if_pos (Ref.terminal_true f small)]
    exact fun g => by simp [small]
  · rw [if_neg (by simp [large])]
    cases counted : store.counts[f]? with
    | none => exact ⟨rfl, large, by rw [tally, counted]; rfl⟩
    | some held =>
        cases held with
        | zero => exact ⟨rfl, large, by rw [tally, counted]; rfl⟩
        | succ count =>
            intro g
            rw [tally_recount store f (count + 1) count counted, Ref.once]
            by_cases same : g = f
            · rw [if_pos same, if_pos ⟨large, same⟩, same, tally, counted]
              rfl
            · rw [if_neg same, if_neg fun both => same both.2]
              rfl

theorem charges_hold (book : Book) (f : Ref) : Charges book (hold f) (fun _ => f.once) fun _ => 0 := by
  intro store coherent
  have both := ends_and _ store _ _ _ _ ((regular_hold book f).ends store coherent) (hold_tally store f)
  refine ends_mono _ store _ _ _ _ both (fun _ next known => ⟨known.1, known.2.2⟩) fun _ next known => ?_
  exact ⟨known.1, fun g => known.2 ▸ Nat.le_refl _⟩

theorem charges_release (book : Book) (f : Ref) : Charges book (release f) (fun _ _ => 0) f.once := by
  intro store coherent
  have both := ends_and _ store _ _ _ _ ((regular_release book f).ends store coherent) (release_tally store f)
  refine ends_mono _ store _ _ _ _ both (fun _ next known => known) fun _ next known => ?_
  exact ⟨known.1, fun g => known.2.1 ▸ Nat.le_add_right _ _⟩

theorem charges_congr {ε α : Type} (book : Book) (act : EStateM ε Store α) (gained : α → Ref → Nat)
    (spent other : Ref → Nat) (same : ∀ f, spent f = other f) (charges : Charges book act gained spent) :
    Charges book act gained other := funext same ▸ charges

theorem charges_built_then {α β : Type} (book : Book) (act : Action α) (next : α → Action β)
    (gained : β → Ref → Nat) (spent : Ref → Nat) (built : Built book act)
    (rest : ∀ a, Charges book (next a) gained spent) : Charges book (act >>= next) gained spent :=
  charges_bind book act next _ _ (fun _ => gained) (fun _ => spent) gained spent (charges_built book act built)
    rest (by intros; lia) (by intros; lia) (by intros; lia)

theorem hold_then {β : Type} (f : Ref) (next : Ref → Action β) : hold f >>= next = hold f >>= fun _ => next f := by
  funext store
  have result := hold_tally store f
  unfold Ends at result
  cases outcome : hold f store with
  | error fault later => simp only [bind, EStateM.bind, outcome]
  | ok r later =>
      rw [outcome] at result
      simp only [bind, EStateM.bind, outcome, result.1]

theorem charges_hold_then {β : Type} (book : Book) (f : Ref) (next : Ref → Action β) (gained : β → Ref → Nat)
    (spent : Ref → Nat) (rest : Charges book (next f) gained fun g => spent g + f.once g) :
    Charges book (hold f >>= next) gained spent := by
  rw [hold_then]
  exact charges_bind book (hold f) _ _ _ (fun _ => gained) (fun _ g => spent g + f.once g) gained spent
    (charges_hold book f) (fun _ => rest) (by intros; lia) (by intros; lia) (by intros; lia)

theorem charges_release_then {β : Type} (book : Book) (f : Ref) (next : Action β) (gained : β → Ref → Nat)
    (spent : Ref → Nat) (rest : Charges book next gained spent) :
    Charges book (do release f; next) gained fun g => spent g + f.once g :=
  charges_bind book (release f) _ _ _ (fun _ => gained) (fun _ => spent) gained _ (charges_release book f)
    (fun _ => rest) (by intros; lia) (by intros; lia) (by intros; lia)

theorem charges_spell (book : Book) (bits : List Var) (value : Nat) (done : Ref) :
    Charges book (spell bits value done) (fun _ _ => 0) fun _ => 0 := by
  induction bits generalizing value done with
  | nil => exact charges_pure book done _
  | cons v rest ih =>
      refine charges_hold_then book done _ _ _ ?_
      refine charges_built_then book _ _ _ _ (built_literal book v _) fun bit => ?_
      refine charges_built_then book _ _ _ _ (built_combine book .and bit done) fun next => ?_
      exact charges_release_then book done _ _ _ (ih (value / 2) next)

theorem charges_finish (book : Book) (done : Ref) :
    Charges book (do release done; return done) (fun _ _ => 0) done.once :=
  charges_congr book _ _ _ _ (fun _ => Nat.zero_add _)
    (charges_release_then book done _ _ _ (charges_pure book done fun _ => 0))

theorem charges_at_most (book : Book) (bits : List Var) (value : Nat) (done : Ref) :
    Charges book (atMost bits value done) (fun _ _ => 0) done.once := by
  induction bits generalizing value done with
  | nil => exact charges_finish book done
  | cons v rest ih =>
      refine charges_built_then book _ _ _ _ (built_literal book v false) fun bit => ?_
      refine charges_built_then book _ _ _ _ (built_combine book _ bit done) fun next => ?_
      refine charges_hold_then book next _ _ _ ?_
      refine charges_congr book _ _ _ _ (fun g => Nat.add_comm _ _) ?_
      exact charges_release_then book done _ _ _ (ih (value / 2) next)

theorem charges_alike (book : Book) (pairs : List (Var × Var)) (done : Ref) :
    Charges book (alike pairs done) (fun _ _ => 0) done.once := by
  induction pairs generalizing done with
  | nil => exact charges_finish book done
  | cons pair rest ih =>
      refine charges_built_then book _ _ _ _ (built_literal book pair.1 true) fun left => ?_
      refine charges_built_then book _ _ _ _ (built_literal book pair.2 true) fun right => ?_
      refine charges_built_then book _ _ _ _ (built_combine book .biimp left right) fun bit => ?_
      refine charges_hold_then book bit _ _ _ ?_
      refine charges_built_then book _ _ _ _ (built_combine book .and done bit) fun next => ?_
      refine charges_hold_then book next _ _ _ ?_
      refine charges_congr book _ _ (fun g => next.once g + done.once g + bit.once g) _ (fun g => by lia) ?_
      exact charges_release_then book bit _ _ _ (charges_release_then book done _ _ _ (ih next))

theorem charges_union (book : Book) (sets : List Ref) (done : Ref) :
    Charges book (union sets done) (fun _ _ => 0) fun _ => 0 := by
  induction sets generalizing done with
  | nil => exact charges_pure book done _
  | cons set rest ih =>
      refine charges_hold_then book done _ _ _ ?_
      refine charges_built_then book _ _ _ _ (built_combine book .and set done) fun next => ?_
      exact charges_release_then book done _ _ _ (ih next)

theorem charges_perform {α : Type} (book : Book) (act : Action α) (gained : α → Ref → Nat) (spent : Ref → Nat)
    (charges : Charges book act gained spent) : Charges book (Request.perform act) gained spent :=
  fun store coherent => ends_perform act store _ _ (charges store coherent)

theorem charges_after_check {α β : Type} (book : Book) (check : Store → Except Refusal α) (act : α → Action β)
    (gained : β → Ref → Nat) (spent : Ref → Nat) (charges : ∀ a, Charges book (act a) gained spent) :
    Charges book (Request.afterCheck check act) gained spent := by
  intro store coherent
  unfold Ends Request.afterCheck
  cases checked : check store with
  | ok a => exact charges_perform book (act a) gained spent (charges a) store coherent
  | error refusal => exact ⟨⟨follows_refl store, coherent⟩, fun f => Nat.le_add_right _ _⟩

theorem charges_encoding (book : Book) (table : BlockTable) (encoding : Encoding) :
    Charges book (encoding.run table) (fun _ _ => 0) fun _ => 0 := by
  cases encoding with
  | value index n => exact charges_after_check book _ _ _ _ fun block => charges_spell book block.bits n 1
  | legal index =>
      refine charges_after_check book _ _ _ _ fun block => ?_
      exact charges_congr book _ _ _ _ (Ref.once_terminal 1 (Nat.le_refl 1)) (charges_at_most book block.bits _ 1)
  | equal left right =>
      refine charges_after_check book _ _ _ _ fun blocks => ?_
      refine charges_hold_then book 1 _ _ _ ?_
      exact charges_congr book _ _ _ _ (fun g => (Nat.zero_add _).symm) (charges_alike book _ 1)
  | varset indices => exact charges_after_check book _ _ _ _ fun sets => charges_union book sets 1

end Action
end DomainDiagram
