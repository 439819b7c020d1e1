import DomainDiagram.Proofs.Regular

set_option autoImplicit false

namespace DomainDiagram

namespace Store

theorem recount_coherent (book : Book) (store : Store) (coherent : store.Coherent book) (f : Ref)
    (count : Nat) (used : f ∉ store.free) :
    Store.Coherent { store with counts := store.counts.setIfInBounds f count } book := by
  have sound := coherent.sound
  have unheld : ∀ g ∈ store.free, (store.counts.setIfInBounds f count)[g]? = some 0 := by
    intro g member
    have different : f ≠ g := by
      rintro rfl
      exact used member
    rw [Array.getElem?_setIfInBounds_ne different]
    exact sound.freeUnheld g member
  have size : (store.counts.setIfInBounds f count).size = store.arena.size := by
    rw [Array.size_setIfInBounds]
    exact sound.counted
  refine coherent_extends store _ book coherent ?_ coherent.memo
    ⟨Nat.le_refl _, fun _ _ tests => tests⟩ fun _ _ found => found
  exact ⟨size, sound.zero, sound.one, sound.freeOnce, sound.freeListed, unheld, sound.allocated,
    sound.irredundant, sound.ordered, sound.levelled, sound.levelVar, sound.levelNodes⟩

theorem grow_succ (store : Store) (n : Nat) : store.grow (n + 1) = (store.grow n).grow 1 := by
  have place : store.numVars + n + 1 = store.numVars + 1 + n := by omega
  have total : store.numVars + (n + 1) = store.numVars + 1 + n := by omega
  simp only [grow, Nat.fold_succ, Nat.fold_zero, Nat.add_zero, place, total]

theorem grow_one_sound (store : Store) (sound : store.Sound) : (store.grow 1).Sound := by
  have levels : (store.grow 1).levels = store.levels.push (.empty (store.numVars + 1)) := rfl
  have read : ∀ i level, (store.grow 1).levels[i]? = some level →
      store.levels[i]? = some level ∨ (i = store.numVars ∧ level = .empty (store.numVars + 1)) := by
    intro i level at_place
    rw [levels, Array.getElem?_push, sound.levelled] at at_place
    by_cases last : i = store.numVars
    · rw [if_pos last] at at_place
      exact .inr ⟨last, (Option.some.inj at_place).symm⟩
    · rw [if_neg last] at at_place
      exact .inl at_place
  constructor
  case counted => exact sound.counted
  case zero => exact sound.zero
  case one => exact sound.one
  case freeOnce => exact sound.freeOnce
  case freeListed => exact sound.freeListed
  case freeUnheld => exact sound.freeUnheld
  case allocated =>
    intro f node tests
    obtain ⟨positive, bound⟩ := sound.allocated f node tests
    exact ⟨positive, Nat.le_succ_of_le bound⟩
  case irredundant => exact sound.irredundant
  case ordered => exact sound.ordered
  case levelled => rw [levels, Array.size_push, sound.levelled]; rfl
  case levelVar =>
    intro i level at_place
    rcases read i level at_place with old | ⟨rfl, rfl⟩
    · exact sound.levelVar i level old
    · rfl
  case levelNodes =>
    intro i level at_place low high f
    rcases read i level at_place with old | ⟨rfl, rfl⟩
    · exact sound.levelNodes i level old low high f
    · constructor
      · intro found
        simp [Level.find?, Level.empty] at found
      · intro tests
        exact absurd (sound.allocated f _ tests).2 (Nat.not_succ_le_self _)

theorem grow_follows (store : Store) (n : Nat) : Follows store (store.grow n) :=
  ⟨rfl, rfl, Nat.le_add_right _ n, fun _ _ tests => tests⟩

theorem grow_sound (store : Store) (sound : store.Sound) (n : Nat) : (store.grow n).Sound := by
  induction n with
  | zero => exact sound
  | succ n ih => exact grow_succ store n ▸ grow_one_sound (store.grow n) ih

theorem grow_coherent (book : Book) (store : Store) (coherent : store.Coherent book) (n : Nat) :
    (store.grow n).Coherent book :=
  coherent_extends store _ book coherent (grow_sound store coherent.sound n) coherent.memo
    (grow_follows store n).grown fun _ _ found => found

end Store

namespace Action

open Store

theorem same_blind {ε α : Type} (act : EStateM ε Store α)
    (blind : ∀ store, bare (act store) = act store.bare) (left right : Store)
    (stores : left.bare = right.bare) : bare (act left) = bare (act right) := by
  rw [blind left, blind right, stores]

theorem recount_kept (book : Book) (store : Store) (coherent : store.Coherent book) (f : Ref)
    (count : Nat) (used : f ∉ store.free) :
    Follows store { store with counts := store.counts.setIfInBounds f count } ∧
      Store.Coherent { store with counts := store.counts.setIfInBounds f count } book :=
  ⟨⟨rfl, rfl, Nat.le_refl _, fun _ _ tests => tests⟩, recount_coherent book store coherent f count used⟩

theorem regular_hold (book : Book) (f : Ref) : Regular book (hold f) := by
  constructor
  case ends =>
    intro store coherent
    have still : Follows store store ∧ store.Coherent book := ⟨follows_refl store, coherent⟩
    unfold Ends hold
    by_cases small : f.isTerminal = true
    · rw [if_pos small]
      exact still
    · rw [if_neg small]
      cases slot : store.arena[f]? with
      | none => exact still
      | some slotted =>
          cases slotted with
          | free => exact still
          | live node =>
              cases counted : store.counts[f]? with
              | none => exact still
              | some count =>
                  have used : f ∉ store.free := by
                    rw [coherent.sound.freeListed, slot]
                    simp
                  by_cases fits : count + 1 < countBound
                  · simp only [if_pos fits]
                    exact recount_kept book store coherent f (count + 1) used
                  · simp only [if_neg fits]
                    exact still
  case same =>
    intro left right stores _ _
    refine same_blind _ (fun store => ?_) left right stores
    have arena : store.bare.arena = store.arena := rfl
    have counts : store.bare.counts = store.counts := rfl
    unfold hold
    rw [arena, counts]
    split
    · rfl
    · split
      · split <;> rfl
      · rfl
      · rfl

theorem regular_release (book : Book) (f : Ref) : Regular book (release f) := by
  constructor
  case ends =>
    intro store coherent
    have still : Follows store store ∧ store.Coherent book := ⟨follows_refl store, coherent⟩
    unfold Ends release
    by_cases small : f.isTerminal = true
    · rw [if_pos small]
      exact still
    · rw [if_neg small]
      cases counted : store.counts[f]? with
      | none => exact still
      | some held =>
          cases held with
          | zero => exact still
          | succ count =>
              have used : f ∉ store.free := fun member => by
                have unheld := coherent.sound.freeUnheld f member
                rw [counted] at unheld
                exact Nat.succ_ne_zero count (Option.some.inj unheld)
              exact recount_kept book store coherent f count used
  case same =>
    intro left right stores _ _
    refine same_blind _ (fun store => ?_) left right stores
    have counts : store.bare.counts = store.counts := rfl
    unfold release
    rw [counts]
    split
    · rfl
    · split <;> rfl

theorem regular_grow (book : Book) (n : Nat) : Regular (ε := Fault) book (modify (·.grow n)) := by
  constructor
  case ends => exact fun store coherent => ⟨grow_follows store n, grow_coherent book store coherent n⟩
  case same => exact fun left right stores _ _ => same_blind _ (fun store => rfl) left right stores

end Action
end DomainDiagram
