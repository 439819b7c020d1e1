import DomainDiagram.Proofs.Codes
import DomainDiagram.Proofs.Exactness
import DomainDiagram.Proofs.Tallies

set_option autoImplicit false

namespace DomainDiagram

def Ref.grips (held : List Ref) (f : Ref) : Nat := held.foldr (fun r n => r.once f + n) 0

theorem Ref.once_le (r f : Ref) : r.once f ≤ 1 := by
  unfold Ref.once
  split
  · exact Nat.le_refl 1
  · exact Nat.zero_le 1

@[simp] theorem Ref.grips_cons (r : Ref) (held : List Ref) (f : Ref) :
    grips (r :: held) f = r.once f + grips held f := rfl

-- Terminals are not counted.
theorem Ref.grips_terminal (r : Ref) (small : r ≤ 1) (held : List Ref) (f : Ref) :
    grips (r :: held) f = grips held f := by
  simp [small]

theorem Ref.grips_le (held : List Ref) (f : Ref) : grips held f ≤ held.length := by
  induction held with
  | nil => exact Nat.le_refl 0
  | cons r rest ih =>
      have one := r.once_le f
      rw [grips_cons, List.length_cons]
      omega

theorem Ref.grips_perm (held other : List Ref) (perm : held.Perm other) (f : Ref) : grips held f = grips other f := by
  unfold grips
  exact perm.foldr_eq' (fun _ _ _ _ _ => by omega) 0

namespace Store

def Stands (store : Store) (f : Ref) (fn : (Var → Bool) → Bool) : Prop :=
  store.Live f ∧ ∀ env, store.eval f env = fn env

def Keeps (old new : Store) : Prop := ∀ (f : Ref) (fn : (Var → Bool) → Bool), old.Stands f fn → new.Stands f fn

theorem stands_congr (store : Store) (f : Ref) (fn gn : (Var → Bool) → Bool) (same : ∀ env, fn env = gn env)
    (stands : store.Stands f fn) : store.Stands f gn := ⟨stands.1, fun env => (stands.2 env).trans (same env)⟩

theorem follows_keeps (old new : Store) (oldSound : old.Sound) (newSound : new.Sound) (follows : Follows old new) :
    Keeps old new := fun f _ stands =>
  ⟨extends_live old new follows.grown f stands.1, fun env =>
    (eval_extends old new oldSound newSound follows.grown f stands.1 env).trans (stands.2 env)⟩

-- So many holds at once are more than some count has room for.
def Crowded (store : Store) (n : Nat) (fault : Fault) : Prop :=
  ∃ f, fault = .countOverflow f ∧ Action.countBound ≤ store.tally f + n

structure Carries (book : Book) (first : Store) (held : List Ref) (store : Store) : Prop where
  follows : Follows first store
  coherent : store.Coherent book
  tally : ∀ f, store.tally f = first.tally f + Ref.grips held f

theorem carries_refl (book : Book) (store : Store) (coherent : store.Coherent book) : store.Carries book [] store :=
  ⟨follows_refl store, coherent, fun _ => rfl⟩

theorem carries_perm (book : Book) (first : Store) (held other : List Ref) (perm : held.Perm other) (store : Store)
    (carries : first.Carries book held store) : first.Carries book other store :=
  ⟨carries.follows, carries.coherent, fun f => Ref.grips_perm held other perm f ▸ carries.tally f⟩

theorem carries_terminal (book : Book) (first : Store) (held : List Ref) (f : Ref) (small : f ≤ 1) (store : Store)
    (carries : first.Carries book held store) : first.Carries book (f :: held) store :=
  ⟨carries.follows, carries.coherent, fun g => (Ref.grips_terminal f small held g).symm ▸ carries.tally g⟩

section Counted

variable {first store : Store} {held : List Ref} {f : Ref}

theorem grip_held (later : Store) (tally : ∀ g, store.tally g = first.tally g + Ref.grips held g)
    (more : ∀ g, later.tally g = store.tally g + f.once g) (g : Ref) :
    later.tally g = first.tally g + Ref.grips (f :: held) g := by
  rw [more, tally, Nat.add_assoc, Nat.add_comm (Ref.grips held g), Ref.grips_cons]

theorem grip_released (later : Store) (tally : ∀ g, store.tally g = first.tally g + Ref.grips (f :: held) g)
    (less : ∀ g, later.tally g + f.once g = store.tally g) (g : Ref) :
    later.tally g = first.tally g + Ref.grips held g := by
  have before := tally g
  rw [← less, Ref.grips_cons] at before
  omega

theorem grip_kept (tally : ∀ g, store.tally g = first.tally g + Ref.grips (f :: held) g) (large : 2 ≤ f) :
    store.tally f ≠ 0 := by
  rw [tally, Ref.grips_cons, Ref.once, if_pos ⟨large, rfl⟩]
  omega

theorem grip_crowded (fault : Fault) (n : Nat) (tally : ∀ g, store.tally g = first.tally g + Ref.grips held g)
    (few : held.length < n) (full : fault = .countOverflow f ∧ Action.countBound ≤ store.tally f + 1) :
    first.Crowded n fault := by
  have known := tally f
  have fewer := Nat.lt_of_le_of_lt (Ref.grips_le held f) few
  exact ⟨f, full.1, by omega⟩

end Counted

theorem stands_true (store : Store) : store.Stands 1 fun _ => true :=
  ⟨.inl (Nat.le_refl 1), eval_one store⟩

end Store

namespace Action

open Store

theorem gives_literal (book : Book) (store : Store) (coherent : store.Coherent book) (v : Var) (value : Bool)
    (positive : 0 < v) (bound : v ≤ store.numVars) :
    Gives book (literal v value) store fun env => env v == value := by
  have small : ∀ g : Ref, g ≤ 1 → store.Below v g := fun _ small => .inl small
  have terminal : ∀ low high : Ref, low ≤ 1 → high ≤ 1 → Gives book (branch v low high) store
      fun env => if env v then high.isOne else low.isOne := by
    intro low high lowSmall highSmall
    obtain ⟨r, next, done, advanced, made⟩ :=
      ends_done (branch v low high) store _ _ (advance_branch book store coherent v low high)
        fun _ _ refused => refused.2 ⟨positive, bound, small low lowSmall, small high highSmall⟩
    refine ⟨r, next, done, advanced, below_live next 0 r ?_, fun env => ?_⟩
    · exact made_below next v 0 low high r positive (.inl lowSmall) made
    · simp [eval_made next advanced.coherent.sound env v r low high made, highSmall, lowSmall]
  have polarity : ∀ test : Bool, (if test then value else !value) = (test == value) := by
    cases value <;> decide
  have built : literal v value = branch v (Ref.constant !value) (Ref.constant value) := by
    cases value with
    | true => exact literal_true v
    | false => exact literal_false v
  have constants : ∀ value : Bool, Ref.constant value ≤ 1 := by decide
  obtain ⟨r, next, done, advanced, live, known⟩ := terminal _ _ (constants !value) (constants value)
  refine ⟨r, next, built ▸ done, advanced, live, fun env => ?_⟩
  simp only [known, Ref.constant_is_one]
  exact polarity (env v)

theorem gives_joined (book : Book) (op : Connective) (store : Store) (coherent : store.Coherent book) (f g : Ref)
    (fn gn : (Var → Bool) → Bool) (left : store.Stands f fn) (right : store.Stands g gn) :
    Gives book (combine op f g) store fun env => op.eval (fn env) (gn env) := by
  obtain ⟨r, next, done, advanced, live, value⟩ := gives_combine book op store coherent f g left.1 right.1
  exact ⟨r, next, done, advanced, live, fun env => by simp only [value, left.2, right.2]⟩

-- How holds come and go along an action that breaks off only where a count is full.
section Rules

variable {β : Type} {book : Book} {first store : Store} {held : List Ref} {done : β → Store → Prop}
  {broken : Fault → Store → Prop}

theorem ends_given {act : Action Ref} {fn : (Var → Bool) → Bool} {next : Ref → Action β}
    (carries : first.Carries book held store) (gives : Gives book act store fn)
    (rest : ∀ r later, first.Carries book held later → Keeps store later → later.Stands r fn →
      Ends (next r) later done broken) : Ends (act >>= next) store done broken := by
  obtain ⟨r, later, outcome, advanced, live, value⟩ := gives
  have follows := advances_follows book store later advanced
  refine ends_then act next store later r done broken outcome (rest r later ⟨?_, advanced.coherent, fun f => ?_⟩ ?_
    ⟨live, value⟩)
  · exact follows_trans first store later carries.follows follows
  · rw [tally_built store later advanced.built, carries.tally]
  · exact follows_keeps store later carries.coherent.sound advanced.coherent.sound follows

theorem ends_held {f : Ref} {n : Nat} {next : Ref → Action β} (carries : first.Carries book held store)
    (few : held.length < n) (live : store.Live f)
    (rest : ∀ later, first.Carries book (f :: held) later → Keeps store later →
      Ends (next f) later done fun fault _ => first.Crowded n fault) :
    Ends (hold f >>= next) store done fun fault _ => first.Crowded n fault := by
  have sound := carries.coherent.sound
  have kept := ends_and _ store _ _ _ _ ((regular_hold book f).ends store carries.coherent) (hold_tally store f)
  have known := ends_and _ store _ _ _ _ kept (hold_breaks store sound f live)
  refine ends_bind (hold f) next store _ _ _ (ends_mono _ store _ _ _ _ known (fun _ _ both => both) ?_) ?_
  · exact fun fault _ broken => grip_crowded fault n carries.tally few broken.2
  · rintro r later ⟨⟨⟨follows, coherent⟩, rfl, tally⟩, _⟩
    exact rest later ⟨follows_trans first store later carries.follows follows, coherent,
      grip_held later carries.tally tally⟩ (follows_keeps store later sound coherent.sound follows)

theorem ends_released {f : Ref} {next : Action β} (carries : first.Carries book (f :: held) store)
    (rest : ∀ later, first.Carries book held later → Keeps store later → Ends next later done broken) :
    Ends (do release f; next) store done broken := by
  have known := ends_and _ store _ _ _ _ ((regular_release book f).ends store carries.coherent) (release_tally store f)
  obtain ⟨_, later, outcome, ⟨follows, coherent⟩, spent⟩ := ends_done (release f) store _ _ known fun _ _ broken => by
    obtain ⟨_, _, large, none⟩ := broken
    exact grip_kept carries.tally large none
  refine ends_then (release f) _ store later () done broken outcome (rest later ⟨?_, coherent, ?_⟩ ?_)
  · exact follows_trans first store later carries.follows follows
  · exact grip_released later carries.tally spent
  · exact follows_keeps store later carries.coherent.sound coherent.sound follows

end Rules

-- All of these start and end with the same holds, but for the one on what is
-- done so far, which the second and third are given and give up.
section Loops

variable (book : Book) (first : Store)

theorem spell_ends (bits : List Var) (allocated : ∀ v ∈ bits, 0 < v ∧ v ≤ first.numVars) (value : Nat) (done : Ref)
    (fn : (Var → Bool) → Bool) (store : Store) (carries : first.Carries book [] store) (stands : store.Stands done fn) :
    Ends (spell bits value done) store
      (fun r next => first.Carries book [] next ∧
        next.Stands r fun env => decide (spelt bits env = value % 2 ^ bits.length) && fn env)
      (fun fault _ => first.Crowded 1 fault) := by
  induction bits generalizing value done fn store with
  | nil =>
      refine ⟨carries, stands_congr store done _ _ (fun env => ?_) stands⟩
      simp [spelt, Nat.mod_one]
  | cons v rest ih =>
      obtain ⟨⟨positive, bound⟩, others⟩ := List.forall_mem_cons.mp allocated
      refine ends_held carries Nat.one_pos stands.1 fun held holding kept => ?_
      have inside := Nat.le_trans bound holding.follows.grown.vars
      have tests := gives_literal book held holding.coherent v (value % 2 == 1) positive inside
      refine ends_given holding tests fun bit tested testing bitKept bitStands => ?_
      have joins := gives_joined book .and tested testing.coherent bit done _ _ bitStands
        (bitKept done fn (kept done fn stands))
      refine ends_given testing joins fun next joined joining _ nextStands => ?_
      refine ends_released joining fun later last nextKept => ?_
      refine ends_mono _ later _ _ _ _ (ih others (value / 2) next _ later last (nextKept next _ nextStands)) ?_
        fun _ _ crowded => crowded
      rintro r final ⟨ended, known⟩
      refine ⟨ended, stands_congr final r _ _ (fun env => ?_) known⟩
      rw [Bool.eq_iff_iff]
      simp only [Connective.eval, Bool.and_eq_true, decide_eq_true_eq, beq_iff_eq, spelt_cons]
      tauto

theorem at_most_ends (bits : List Var) (allocated : ∀ v ∈ bits, 0 < v ∧ v ≤ first.numVars) (value : Nat) (done : Ref)
    (fn : (Var → Bool) → Bool) (store : Store) (carries : first.Carries book [done] store)
    (stands : store.Stands done fn) :
    Ends (atMost bits value done) store
      (fun r next => first.Carries book [] next ∧ next.Stands r fun env =>
        decide (spelt bits env < value % 2 ^ bits.length) ||
          (decide (spelt bits env = value % 2 ^ bits.length) && fn env))
      (fun fault _ => first.Crowded 2 fault) := by
  induction bits generalizing value done fn store with
  | nil =>
      refine ends_released carries fun later last kept => ?_
      refine ⟨last, stands_congr later done _ _ (fun env => ?_) (kept done fn stands)⟩
      simp [spelt, Nat.mod_one]
  | cons v rest ih =>
      obtain ⟨⟨positive, bound⟩, others⟩ := List.forall_mem_cons.mp allocated
      have inside := Nat.le_trans bound carries.follows.grown.vars
      have tests := gives_literal book store carries.coherent v false positive inside
      refine ends_given carries tests fun bit tested testing bitKept bitStands => ?_
      have joins := gives_joined book (if value % 2 == 1 then .or else .and) tested testing.coherent bit done _ _
        bitStands (bitKept done fn stands)
      refine ends_given testing joins fun next joined joining _ nextStands => ?_
      refine ends_held joining (Nat.le_refl 2) nextStands.1 fun held holding nextHeld => ?_
      have swapped := carries_perm book first [next, done] [done, next] (.swap done next []) held holding
      refine ends_released swapped fun later last nextKept => ?_
      refine ends_mono _ later _ _ _ _
        (ih others (value / 2) next _ later last (nextKept next _ (nextHeld next _ nextStands))) ?_
        fun _ _ crowded => crowded
      rintro r final ⟨ended, known⟩
      exact ⟨ended, stands_congr final r _ _ (fun env => (spelt_at_most v rest env value (fn env)).symm) known⟩

theorem alike_ends (pairs : List (Var × Var)) (allocated : ∀ pair ∈ pairs, (0 < pair.1 ∧ pair.1 ≤ first.numVars) ∧
      0 < pair.2 ∧ pair.2 ≤ first.numVars) (done : Ref) (fn : (Var → Bool) → Bool) (store : Store)
    (carries : first.Carries book [done] store) (stands : store.Stands done fn) :
    Ends (alike pairs done) store
      (fun r next => first.Carries book [] next ∧ next.Stands r fun env =>
        (pairs.all fun (v, w) => env v == env w) && fn env)
      (fun fault _ => first.Crowded 3 fault) := by
  induction pairs generalizing done fn store with
  | nil =>
      refine ends_released carries fun later last kept => ?_
      exact ⟨last, stands_congr later done _ _ (fun env => (Bool.true_and _).symm) (kept done fn stands)⟩
  | cons pair rest ih =>
      obtain ⟨v, w⟩ := pair
      obtain ⟨⟨⟨vPositive, vBound⟩, wPositive, wBound⟩, others⟩ := List.forall_mem_cons.mp allocated
      have vInside := Nat.le_trans vBound carries.follows.grown.vars
      refine ends_given carries (gives_literal book store carries.coherent v true vPositive vInside)
        fun left one leftMade leftKept leftStands => ?_
      have wInside := Nat.le_trans wBound leftMade.follows.grown.vars
      refine ends_given leftMade (gives_literal book one leftMade.coherent w true wPositive wInside)
        fun right two rightMade rightKept rightStands => ?_
      refine ends_given rightMade (gives_joined book .biimp two rightMade.coherent left right _ _
        (rightKept left _ leftStands) rightStands) fun bit three bitMade bitKept bitStands => ?_
      refine ends_held bitMade (Nat.le_succ 2) bitStands.1 fun four bitHeld held => ?_
      have doneStands := held done fn (bitKept done fn (rightKept done fn (leftKept done fn stands)))
      refine ends_given bitHeld (gives_joined book .and four bitHeld.coherent done bit _ _ doneStands
        (held bit _ bitStands)) fun next five nextMade _ nextStands => ?_
      refine ends_held nextMade (Nat.le_refl 3) nextStands.1 fun six nextHeld nextKept => ?_
      have swapped := carries_perm book first [next, bit, done] [bit, next, done] (.swap bit next [done]) six nextHeld
      refine ends_released swapped fun seven bitReleased further => ?_
      have turned := carries_perm book first [next, done] [done, next] (.swap done next []) seven bitReleased
      refine ends_released turned fun later last again => ?_
      refine ends_mono _ later _ _ _ _
        (ih others next _ later last (again next _ (further next _ (nextKept next _ nextStands)))) ?_
        fun _ _ crowded => crowded
      rintro r final ⟨ended, known⟩
      refine ⟨ended, stands_congr final r _ _ (fun env => ?_) known⟩
      simp only [List.all_cons, Connective.eval]
      cases env v <;> cases env w <;> cases fn env <;> simp

theorem alike_all_ends (pairs : List (Var × Var)) (allocated : ∀ pair ∈ pairs,
      (0 < pair.1 ∧ pair.1 ≤ first.numVars) ∧ 0 < pair.2 ∧ pair.2 ≤ first.numVars) (store : Store)
    (carries : first.Carries book [] store) :
    Ends (do
        let start ← hold 1
        alike pairs start) store
      (fun r next => first.Carries book [] next ∧ next.Stands r fun env => pairs.all fun (v, w) => env v == env w)
      (fun fault _ => first.Crowded 3 fault) := by
  refine ends_held carries (Nat.succ_pos 2) (stands_true store).1 fun later holding kept => ?_
  have start := kept 1 _ (stands_true store)
  refine ends_mono _ later _ _ _ _ (alike_ends book first pairs allocated 1 _ later holding start) ?_
    fun _ _ crowded => crowded
  rintro r final ⟨ended, known⟩
  exact ⟨ended, stands_congr final r _ _ (fun env => Bool.and_true _) known⟩

theorem union_ends (sets : List Ref) (firstSound : first.Sound) (live : ∀ set ∈ sets, first.Live set) (done : Ref)
    (fn : (Var → Bool) → Bool) (store : Store) (carries : first.Carries book [] store) (stands : store.Stands done fn) :
    Ends (union sets done) store
      (fun r next => first.Carries book [] next ∧
        next.Stands r fun env => (sets.all fun set => first.eval set env) && fn env)
      (fun fault _ => first.Crowded 1 fault) := by
  induction sets generalizing done fn store with
  | nil => exact ⟨carries, stands_congr store done _ _ (fun env => (Bool.true_and _).symm) stands⟩
  | cons set rest ih =>
      obtain ⟨setLive, others⟩ := List.forall_mem_cons.mp live
      refine ends_held carries Nat.one_pos stands.1 fun held holding kept => ?_
      have setStands : held.Stands set (first.eval set) :=
        follows_keeps first held firstSound holding.coherent.sound holding.follows set _ ⟨setLive, fun _ => rfl⟩
      refine ends_given holding (gives_joined book .and held holding.coherent set done _ _ setStands
        (kept done fn stands)) fun next joined joining _ nextStands => ?_
      refine ends_released joining fun later last nextKept => ?_
      refine ends_mono _ later _ _ _ _ (ih others next _ later last (nextKept next _ nextStands)) ?_
        fun _ _ crowded => crowded
      rintro r final ⟨ended, known⟩
      refine ⟨ended, stands_congr final r _ _ (fun env => ?_) known⟩
      simp only [List.all_cons, Connective.eval]
      cases first.eval set env <;> simp

end Loops
end Action
end DomainDiagram
