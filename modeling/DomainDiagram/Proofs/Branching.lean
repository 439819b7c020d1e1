import DomainDiagram.Proofs.Remembered

set_option autoImplicit false

namespace DomainDiagram

namespace Store

-- A walk from below v that takes so many steps comes to a terminal.
def Suffices (store : Store) (v steps : Nat) : Prop := v ≤ store.numVars ∧ store.numVars < v + steps

theorem suffices_none (store : Store) (v : Nat) : ¬ store.Suffices v 0 := by
  rintro ⟨inside, enough⟩
  omega

def Within (store : Store) (steps : Nat) (fs : List Ref) : Prop :=
  ∃ v, store.Suffices v steps ∧ ∀ f ∈ fs, store.Live f → store.Below v f

theorem within_steps (store : Store) (sound : store.Sound) (fs : List Ref) :
    store.Within store.steps fs := by
  refine ⟨0, ⟨Nat.zero_le _, ?_⟩, fun f _ live => live_below store sound f live⟩
  simp only [steps]
  omega

@[simp] theorem within_none (store : Store) (fs : List Ref) : ¬ store.Within 0 fs := by
  rintro ⟨v, enough, _⟩
  exact suffices_none store v enough

-- A call on refs below a variable that one of the refs of this call tests is
-- left one step less, and that is enough for it.
theorem within_deeper (book : Book) (store next later : Store) (only : OnlyMemo store next)
    (advanced : Advances book next later) (steps : Nat) (fs gs : List Ref) (v : Var)
    (live : ∀ f ∈ fs, store.Live f) (heads : ∃ f ∈ fs, next.Heads v f) (below : ∀ g ∈ gs, next.Below v g)
    (within : store.Within (steps + 1) fs) : later.Within steps gs ∧ ∀ g ∈ gs, later.Live g := by
  have grown := advances_extends book next later advanced
  have built := builds_trans store next later (only_memo_builds store next only) advanced.built
  have kept : ∀ g ∈ gs, later.Below v g := fun g member => extends_below next later grown v g (below g member)
  obtain ⟨w, ⟨_, enough⟩, allBelow⟩ := within
  obtain ⟨f, member, head⟩ := heads
  obtain ⟨low, high, tests⟩ := extends_heads next later grown v f head
  have less : w < v := below_tests later w f _
    (extends_below store later (builds_extends store later built) w f (allBelow f member (live f member))) tests
  have bound : v ≤ later.numVars := (advanced.coherent.sound.allocated f _ tests).2
  have vars := built.vars
  exact ⟨⟨v, ⟨bound, by omega⟩, fun g inside _ => kept g inside⟩,
    fun g inside => below_live later v g (kept g inside)⟩

def Refuses (store : Store) (steps : Nat) (fs : List Ref) : Prop :=
  store.Within steps fs → ¬ ∀ f ∈ fs, store.Live f

theorem refuses_none (store : Store) (fs : List Ref) : store.Refuses 0 fs := fun within =>
  absurd within (within_none store fs)

theorem refuses_dead (store : Store) (steps : Nat) (fs : List Ref) (f : Ref) (member : f ∈ fs)
    (dead : ¬ store.Live f) : store.Refuses steps fs := fun _ live => dead (live f member)

theorem refuses_part (store : Store) (steps : Nat) (fs gs : List Ref) (part : ∀ g ∈ gs, g ∈ fs)
    (refused : ¬ ∀ g ∈ gs, store.Live g) : store.Refuses steps fs := fun _ live =>
  refused fun g member => live g (part g member)

theorem refuses_deeper (book : Book) (store next later : Store) (only : OnlyMemo store next)
    (advanced : Advances book next later) (steps : Nat) (fs gs : List Ref) (v : Var)
    (heads : ∃ f ∈ fs, next.Heads v f) (below : ∀ g ∈ gs, next.Below v g)
    (refused : later.Refuses steps gs) : store.Refuses (steps + 1) fs := by
  intro within live
  obtain ⟨fewer, inside⟩ :=
    within_deeper book store next later only advanced steps fs gs v live heads below within
  exact refused fewer inside

theorem within_same (old new : Store) (same : old.bare = new.bare) (steps : Nat) (fs : List Ref)
    (within : old.Within steps fs) : new.Within steps fs := by
  obtain ⟨v, enough, below⟩ := within
  have vars : old.numVars = new.numVars := bare_blind Store.numVars (fun _ => rfl) old new same
  refine ⟨v, by rwa [Suffices, ← vars], fun f member live => ?_⟩
  exact extends_below old new (bare_extends old new same) v f
    (below f member (extends_live new old (bare_extends new old same.symm) f live))

def Admits (store : Store) (v : Var) (low high : Ref) : Prop :=
  0 < v ∧ v ≤ store.numVars ∧ store.Below v low ∧ store.Below v high

end Store

namespace Action

open Store

theorem branch_run (v : Var) (low high : Ref) (store : Store) :
    branch v low high store =
      match store.checkAllocated v with
      | .error fault => .error fault store
      | .ok () =>
          if low = high then .ok low store
          else
            match store.checkBelow v low with
            | .error fault => .error fault store
            | .ok () =>
                match store.checkBelow v high with
                | .error fault => .error fault store
                | .ok () =>
                    match store.find? ⟨v, low, high⟩ with
                    | some f => .ok f store
                    | none => .ok (store.place ⟨v, low, high⟩).1 (store.place ⟨v, low, high⟩).2 := by
  cases checked : store.checkAllocated v with
  | error fault => simp only [branch, bind, EStateM.bind, inspect, checked]
  | ok _ =>
      by_cases same : low = high
      · simp only [branch, bind, EStateM.bind, inspect, checked, if_pos same]
        rfl
      · cases lowChecked : store.checkBelow v low with
        | error fault => simp only [branch, bind, EStateM.bind, inspect, checked, if_neg same, lowChecked]
        | ok _ =>
            cases highChecked : store.checkBelow v high with
            | error fault =>
                simp only [branch, bind, EStateM.bind, inspect, checked, if_neg same, lowChecked, highChecked]
            | ok _ =>
                cases found : store.find? ⟨v, low, high⟩ <;>
                  simp only [branch, bind, EStateM.bind, inspect, checked, if_neg same, lowChecked, highChecked,
                    found]

@[simp] theorem check_allocated (store : Store) (v : Var) :
    store.checkAllocated v = .ok () ↔ 0 < v ∧ v ≤ store.numVars := by
  unfold checkAllocated
  by_cases outside : v = 0 ∨ store.numVars < v
  · rw [if_pos outside]
    constructor
    · exact fun passed => nomatch passed
    · lia
  · rw [if_neg outside]
    exact ⟨fun _ => by lia, fun _ => rfl⟩

theorem ends_branch (store : Store) (sound : store.Sound) (v : Var) (low high : Ref) :
    Ends (branch v low high) store
      (fun r next => Builds store next ∧ next.Sound ∧ next.memo = store.memo ∧ next.Made v low high r)
      (fun _ next => next = store ∧ ¬ store.Admits v low high) := by
  unfold Ends
  rw [branch_run]
  cases checked : store.checkAllocated v with
  | error fault =>
      refine ⟨rfl, fun admitted => ?_⟩
      rw [(check_allocated store v).mpr ⟨admitted.1, admitted.2.1⟩] at checked
      exact nomatch checked
  | ok _ =>
      by_cases same : low = high
      · rw [if_pos same]
        exact ⟨builds_refl store, sound, rfl, .inl ⟨same, rfl⟩⟩
      · rw [if_neg same]
        cases lowChecked : store.checkBelow v low with
        | error fault =>
            refine ⟨rfl, fun admitted => ?_⟩
            rw [(check_below store v low).mpr admitted.2.2.1] at lowChecked
            exact nomatch lowChecked
        | ok _ =>
            cases highChecked : store.checkBelow v high with
            | error fault =>
                refine ⟨rfl, fun admitted => ?_⟩
                rw [(check_below store v high).mpr admitted.2.2.2] at highChecked
                exact nomatch highChecked
            | ok _ =>
                obtain ⟨positive, bound⟩ := (check_allocated store v).mp checked
                cases found : store.find? ⟨v, low, high⟩ with
                | some f =>
                    have tests := (find_tests store sound ⟨v, low, high⟩ positive bound f).mp found
                    exact ⟨builds_refl store, sound, rfl, .inr ⟨same, tests⟩⟩
                | none =>
                    have fits : store.Placeable ⟨v, low, high⟩ := ⟨positive, bound, same,
                      (check_below store v low).mp lowChecked, (check_below store v high).mp highChecked,
                      found⟩
                    obtain ⟨nextSound, built, tests, memo⟩ := place_sound store sound _ fits
                    exact ⟨built, nextSound, memo, .inr ⟨same, tests⟩⟩

theorem advance_branch (book : Book) (store : Store) (coherent : store.Coherent book) (v : Var)
    (low high : Ref) :
    Ends (branch v low high) store
      (fun r next => Advances book store next ∧ next.Made v low high r)
      (fun _ next => Advances book store next ∧ ¬ store.Admits v low high) := by
  refine ends_mono _ store _ _ _ _ (ends_branch store coherent.sound v low high) ?_ ?_
  · rintro r next ⟨built, sound, memo, made⟩
    refine ⟨⟨built, ?_⟩, made⟩
    exact coherent_extends store next book coherent sound (memo ▸ coherent.memo)
      (builds_extends store next built) fun key r found => memo ▸ found
  · rintro fault next ⟨rfl, refused⟩
    exact ⟨advances_refl book next coherent, refused⟩

theorem replays_branch (book : Book) (store : Store) (coherent : store.Coherent book) (v : Var)
    (low high r : Ref) (positive : 0 < v) (bound : v ≤ store.numVars) (made : store.Made v low high r) :
    Replays book (branch v low high) store r := by
  refine ⟨store, ?_, only_memo_refl store, coherent⟩
  rw [branch_run, (check_allocated store v).mpr ⟨positive, bound⟩]
  rcases made with ⟨rfl, rfl⟩ | ⟨different, tests⟩
  · simp only [if_true]
  · obtain ⟨lowBelow, highBelow⟩ := coherent.sound.ordered r _ tests
    have found := (find_tests store coherent.sound _ positive bound r).mpr tests
    simp only [if_neg different, (check_below store v low).mpr lowBelow,
      (check_below store v high).mpr highBelow, found]

theorem place_bare (store : Store) (node : Node) :
    store.bare.place node = ((store.place node).1, (store.place node).2.bare) := by
  cases free : store.free <;> simp [place, Store.bare, free]

theorem branch_bare (store : Store) (v : Var) (low high : Ref) :
    bare (branch v low high store) = branch v low high store.bare := by
  have allocated : store.bare.checkAllocated v = store.checkAllocated v := rfl
  have lowBelow : store.bare.checkBelow v low = store.checkBelow v low := rfl
  have highBelow : store.bare.checkBelow v high = store.checkBelow v high := rfl
  have find : store.bare.find? ⟨v, low, high⟩ = store.find? ⟨v, low, high⟩ := rfl
  rw [branch_run, branch_run, allocated, lowBelow, highBelow, find, place_bare]
  cases store.checkAllocated v with
  | error fault => rfl
  | ok _ =>
      by_cases same : low = high
      · simp only [if_pos same]
        rfl
      · simp only [if_neg same]
        cases store.checkBelow v low with
        | error fault => rfl
        | ok _ =>
            cases store.checkBelow v high with
            | error fault => rfl
            | ok _ => cases store.find? ⟨v, low, high⟩ <;> rfl

theorem bare_branch (left right : Store) (stores : left.bare = right.bare) (v : Var) (low high : Ref) :
    bare (branch v low high left) = bare (branch v low high right) := by
  rw [branch_bare, branch_bare, stores]

theorem ends_both {β : Type} (book : Book) (first second : Action Ref) (last : Ref → Ref → Action β)
    (store : Store) (lowHolds highHolds : Ref → Store → Prop) (lowFailed failed : Prop)
    (highFailed : Store → Prop) (done : β → Store → Prop) (broken : Fault → Store → Prop)
    (lasting : ∀ r old new, Extends old new → lowHolds r old → lowHolds r new)
    (firstEnds : Ends first store (fun low next => Advances book store next ∧ lowHolds low next)
      (fun _ next => Advances book store next ∧ lowFailed))
    (secondEnds : ∀ later, Advances book store later →
      Ends second later (fun high next => Advances book later next ∧ highHolds high next)
        (fun _ next => Advances book later next ∧ highFailed later))
    (lowFails : lowFailed → failed)
    (highFails : ∀ later, Advances book store later → highFailed later → failed)
    (fails : ∀ fault later, Advances book store later → failed → broken fault later)
    (lastEnds : ∀ low high later, Advances book store later → lowHolds low later → highHolds high later →
      Ends (last low high) later done broken) :
    Ends (do let low ← first; let high ← second; last low high) store done broken := by
  have begun := ends_mono first store _ _ _ broken firstEnds (fun _ _ known => known)
    (fun fault later known => fails fault later known.1 (lowFails known.2))
  refine ends_bind first _ store _ done broken begun fun low middle known => ?_
  obtain ⟨toMiddle, lowKnown⟩ := known
  have continued := ends_mono second middle _ _ _ broken (secondEnds middle toMiddle)
    (fun _ _ known => known) (fun fault later known => fails fault later
      (advances_trans book _ _ _ toMiddle known.1) (highFails middle toMiddle known.2))
  refine ends_bind second _ middle _ done broken continued fun high later known => ?_
  obtain ⟨toLater, highKnown⟩ := known
  exact lastEnds low high later (advances_trans book _ _ _ toMiddle toLater)
    (lasting low middle later (advances_extends book _ _ toLater) lowKnown) highKnown

theorem advance_halves (book : Book) (first second : Action Ref) (store : Store) (v : Var)
    (lowHolds highHolds holds : Ref → Store → Prop) (lowFailed failed : Prop) (highFailed : Store → Prop)
    (positive : 0 < v) (bound : v ≤ store.numVars)
    (lowLasting : ∀ r old new, Extends old new → lowHolds r old → lowHolds r new)
    (highLasting : ∀ r old new, Extends old new → highHolds r old → highHolds r new)
    (firstEnds : Ends first store (fun low next => Advances book store next ∧ lowHolds low next)
      (fun _ next => Advances book store next ∧ lowFailed))
    (secondEnds : ∀ later, Advances book store later →
      Ends second later (fun high next => Advances book later next ∧ highHolds high next)
        (fun _ next => Advances book later next ∧ highFailed later))
    (lowFails : lowFailed → failed)
    (highFails : ∀ later, Advances book store later → highFailed later → failed)
    (lowBelow : ∀ r later, Advances book store later → lowHolds r later → later.Below v r)
    (highBelow : ∀ r later, Advances book store later → highHolds r later → later.Below v r)
    (joined : ∀ low high r later, Extends store later → lowHolds low later → highHolds high later →
      later.Made v low high r → holds r later) :
    Ends (do let low ← first; let high ← second; branch v low high) store
      (fun r next => Advances book store next ∧ holds r next)
      (fun _ next => Advances book store next ∧ failed) := by
  refine ends_both book first second (branch v) store lowHolds highHolds lowFailed failed highFailed _ _
    lowLasting firstEnds secondEnds lowFails highFails (fun fault later advanced fails => ⟨advanced, fails⟩) ?_
  intro low high later advanced lowKnown highKnown
  refine ends_mono _ later _ _ _ _ (advance_branch book later advanced.coherent v low high) ?_ ?_
  · rintro r next ⟨further, made⟩
    have grown := advances_extends book later next further
    have whole := advances_trans book store later next advanced further
    exact ⟨whole, joined low high r next (advances_extends book store next whole)
      (lowLasting low later next grown lowKnown) (highLasting high later next grown highKnown) made⟩
  · rintro fault next ⟨_, refused⟩
    refine absurd ⟨positive, ?_, lowBelow low later advanced lowKnown, highBelow high later advanced highKnown⟩
      refused
    rw [advanced.built.vars]
    exact bound

theorem replays_halves (book : Book) (first second : Action Ref) (store : Store) (v : Var)
    (low high r : Ref) (positive : 0 < v) (bound : v ≤ store.numVars) (made : store.Made v low high r)
    (firstReplays : Replays book first store low)
    (secondReplays : ∀ later, OnlyMemo store later → later.Coherent book → Replays book second later high) :
    Replays book (do let low ← first; let high ← second; branch v low high) store r := by
  refine replays_bind book first _ store low r firstReplays fun middle toMiddle middleCoherent => ?_
  refine replays_bind book second _ middle high r (secondReplays middle toMiddle middleCoherent)
    fun later toLater laterCoherent => ?_
  have only := only_memo_trans store middle later toMiddle toLater
  have built := only_memo_builds store later only
  exact replays_branch book later laterCoherent v low high r positive (built.vars ▸ bound)
    (made_extends store later (builds_extends store later built) v low high r made)

def Grows (book : Book) (act : Action Ref) : Prop :=
  ∀ store : Store, store.Coherent book → ∀ r next, act store = .ok r next → Advances book store next

theorem ends_grows (book : Book) (act : Action Ref) (holds : Store → Ref → Store → Prop)
    (failed : Store → Prop)
    (ends : ∀ store : Store, store.Coherent book →
      Ends act store (fun r next => Advances book store next ∧ holds store r next)
        (fun _ next => Advances book store next ∧ failed store)) : Grows book act := by
  intro store coherent r next done
  exact (ends_ok act store next r _ _ (ends store coherent) done).1

theorem bare_both {β : Type} (book : Book) (first second : Action Ref) (last : Ref → Ref → Action β)
    (left right : Store) (leftCoherent : left.Coherent book) (rightCoherent : right.Coherent book)
    (firstGrows : Grows book first) (secondGrows : Grows book second)
    (firstSame : bare (first left) = bare (first right))
    (secondSame : ∀ a b, Advances book left a → Advances book right b → a.bare = b.bare →
      bare (second a) = bare (second b))
    (lastSame : ∀ low high a b, Advances book left a → Advances book right b → a.bare = b.bare →
      bare (last low high a) = bare (last low high b)) :
    bare ((do let low ← first; let high ← second; last low high : Action β) left) =
      bare ((do let low ← first; let high ← second; last low high : Action β) right) := by
  refine bare_bind first _ left right firstSame fun low a b leftDone rightDone stores => ?_
  have leftFirst := firstGrows left leftCoherent low a leftDone
  have rightFirst := firstGrows right rightCoherent low b rightDone
  refine bare_bind second _ a b (secondSame a b leftFirst rightFirst stores) ?_
  intro high c d leftThen rightThen alike
  have leftSecond := secondGrows a leftFirst.coherent high c leftThen
  have rightSecond := secondGrows b rightFirst.coherent high d rightThen
  exact lastSame low high c d (advances_trans book left a c leftFirst leftSecond)
    (advances_trans book right b d rightFirst rightSecond) alike

end Action
end DomainDiagram
