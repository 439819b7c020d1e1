import DomainDiagram.Proofs.Renamed

set_option autoImplicit false

namespace DomainDiagram

namespace Store

-- A store without its table of results and the size of that table.
def bare (store : Store) : Store :=
  { store with memo := .empty 0, config := { store.config with cacheBits := 0 } }

@[simp] theorem node_bare (store : Store) : store.bare.node = store.node := rfl

@[simp] theorem var_of_bare (store : Store) : store.bare.varOf = store.varOf := rfl

@[simp] theorem vars_bare (store : Store) : store.bare.numVars = store.numVars := rfl

@[simp] theorem steps_bare (store : Store) : store.bare.steps = store.steps := rfl

theorem bare_extends (old new : Store) (same : old.bare = new.bare) : Extends old new := by
  have arena : old.bare.arena = new.bare.arena := congrArg Store.arena same
  have vars : old.bare.numVars = new.bare.numVars := congrArg Store.numVars same
  exact ⟨Nat.le_of_eq vars, fun f node tests => ⟨tests.1, by rw [← tests.2]; exact congrArg (·[f]?) arena.symm⟩⟩

theorem bare_sound (store : Store) (sound : store.Sound) : store.bare.Sound :=
  ⟨sound.counted, sound.zero, sound.one, sound.freeOnce, sound.freeListed, sound.freeUnheld,
    sound.allocated, sound.irredundant, sound.ordered, sound.levelled, sound.levelVar, sound.levelNodes⟩

theorem sound_bare (store : Store) (sound : store.bare.Sound) : store.Sound :=
  ⟨sound.counted, sound.zero, sound.one, sound.freeOnce, sound.freeListed, sound.freeUnheld,
    sound.allocated, sound.irredundant, sound.ordered, sound.levelled, sound.levelVar, sound.levelNodes⟩

theorem bare_blind {α : Type} (look : Store → α) (blind : ∀ store : Store, look store.bare = look store)
    (left right : Store) (stores : left.bare = right.bare) : look left = look right := by
  rw [← blind left, ← blind right, stores]

theorem sound_same (old new : Store) (same : old.bare = new.bare) (sound : old.Sound) : new.Sound :=
  sound_bare new (same ▸ bare_sound old sound)

end Store

namespace Action

def Ends {ε α : Type} (act : EStateM ε Store α) (store : Store) (done : α → Store → Prop)
    (broken : ε → Store → Prop) : Prop :=
  match act store with
  | .ok a next => done a next
  | .error fault next => broken fault next

theorem ends_bind {ε α β : Type} (act : EStateM ε Store α) (next : α → EStateM ε Store β)
    (store : Store) (middle : α → Store → Prop) (done : β → Store → Prop) (broken : ε → Store → Prop)
    (first : Ends act store middle broken)
    (rest : ∀ a later, middle a later → Ends (next a) later done broken) :
    Ends (act >>= next) store done broken := by
  unfold Ends at first
  cases outcome : act store with
  | ok a later =>
      rw [outcome] at first
      have step : (act >>= next) store = next a later := by
        simp only [bind, EStateM.bind, outcome]
      simpa only [Ends, step] using rest a later first
  | error fault later =>
      rw [outcome] at first
      have step : (act >>= next) store = .error fault later := by
        simp only [bind, EStateM.bind, outcome]
      simpa only [Ends, step] using first

theorem ends_mono {ε α : Type} (act : EStateM ε Store α) (store : Store)
    (done further : α → Store → Prop) (broken failed : ε → Store → Prop)
    (known : Ends act store done broken) (onDone : ∀ a later, done a later → further a later)
    (onBroken : ∀ fault later, broken fault later → failed fault later) :
    Ends act store further failed := by
  unfold Ends at known ⊢
  cases outcome : act store with
  | ok a later => exact onDone a later (by simpa only [outcome] using known)
  | error fault later => exact onBroken fault later (by simpa only [outcome] using known)

-- A property that an action without effect has, and two actions in a row if
-- each of them has it.
structure Composes {ε : Type} (holds : ∀ {α : Type}, EStateM ε Store α → Prop) : Prop where
  still : ∀ {α : Type} (a : α), holds (pure a : EStateM ε Store α)
  onward : ∀ {α β : Type} (act : EStateM ε Store α) (next : α → EStateM ε Store β),
    holds act → (∀ a, holds (next a)) → holds (act >>= next)

section

variable {ε α β : Type} {holds : ∀ {α : Type}, EStateM ε Store α → Prop} (composes : Composes holds)
include composes

theorem composes_foldlM (act : β → α → EStateM ε Store β) (step : ∀ b a, holds (act b a)) (items : List α) (b : β) :
    holds (items.foldlM act b) := by
  induction items generalizing b with
  | nil => exact composes.still b
  | cons a rest ih =>
      rw [List.foldlM_cons]
      exact composes.onward _ _ (step b a) ih

theorem composes_foldrM (act : α → β → EStateM ε Store β) (step : ∀ a b, holds (act a b)) (items : List α) (b : β) :
    holds (items.foldrM act b) := by
  induction items generalizing b with
  | nil => exact composes.still b
  | cons a rest ih =>
      rw [List.foldrM_cons]
      exact composes.onward _ _ (ih b) (step a)

theorem composes_mapM (act : α → EStateM ε Store β) (step : ∀ a, holds (act a)) (items : List α) :
    holds (items.mapM act) := by
  induction items with
  | nil => exact composes.still []
  | cons a rest ih =>
      rw [List.mapM_cons]
      refine composes.onward _ _ (step a) fun b => ?_
      exact composes.onward _ _ ih fun bs => composes.still (b :: bs)

end

theorem ends_ok {ε α : Type} (act : EStateM ε Store α) (store next : Store) (a : α)
    (done : α → Store → Prop) (broken : ε → Store → Prop) (known : Ends act store done broken)
    (outcome : act store = .ok a next) : done a next := by
  simpa only [Ends, outcome] using known

theorem ends_done {ε α : Type} (act : EStateM ε Store α) (store : Store) (done : α → Store → Prop)
    (broken : ε → Store → Prop) (known : Ends act store done broken)
    (never : ∀ fault next, ¬ broken fault next) : ∃ a next, act store = .ok a next ∧ done a next := by
  unfold Ends at known
  cases outcome : act store with
  | ok a next => exact ⟨a, next, rfl, by simpa only [outcome] using known⟩
  | error fault next => exact absurd (by simpa only [outcome] using known) (never fault next)

theorem ends_look {α β : Type} (look : Store → Except Fault α) (next : α → Action β) (store : Store)
    (done : β → Store → Prop) (broken : Fault → Store → Prop)
    (seen : ∀ a, look store = .ok a → Ends (next a) store done broken)
    (failed : ∀ fault, look store = .error fault → broken fault store) :
    Ends (inspect look >>= next) store done broken := by
  cases outcome : look store with
  | ok a => simpa only [Ends, bind, EStateM.bind, inspect, outcome] using seen a outcome
  | error fault => simpa only [Ends, bind, EStateM.bind, inspect, outcome] using failed fault outcome

theorem ends_read {α β : Type} (look : Store → Except Fault α) (next : α → Action β) (store : Store)
    (done : β → Store → Prop) (broken : Fault → Store → Prop) (a : α) (read : look store = .ok a)
    (rest : Ends (next a) store done broken) : Ends (inspect look >>= next) store done broken := by
  simpa only [Ends, bind, EStateM.bind, inspect, read] using rest

def bare {ε α : Type} : EStateM.Result ε Store α → EStateM.Result ε Store α
  | .ok a store => .ok a store.bare
  | .error fault store => .error fault store.bare

theorem bare_cases {ε α : Type} (left right : EStateM.Result ε Store α) (same : bare left = bare right) :
    (∃ a leftNext rightNext, left = .ok a leftNext ∧ right = .ok a rightNext ∧
      leftNext.bare = rightNext.bare) ∨
    (∃ fault leftNext rightNext, left = .error fault leftNext ∧ right = .error fault rightNext ∧
      leftNext.bare = rightNext.bare) := by
  cases left with
  | ok a leftNext =>
      cases right with
      | ok b rightNext =>
          obtain ⟨rfl, stores⟩ := EStateM.Result.ok.inj same
          exact .inl ⟨a, leftNext, rightNext, rfl, rfl, stores⟩
      | error other rightNext => exact nomatch same
  | error fault leftNext =>
      cases right with
      | ok b rightNext => exact nomatch same
      | error other rightNext =>
          obtain ⟨rfl, stores⟩ := EStateM.Result.error.inj same
          exact .inr ⟨fault, leftNext, rightNext, rfl, rfl, stores⟩

theorem bare_bind {ε α β : Type} (act : EStateM ε Store α) (next : α → EStateM ε Store β)
    (left right : Store) (same : bare (act left) = bare (act right))
    (rest : ∀ a leftNext rightNext, act left = .ok a leftNext → act right = .ok a rightNext →
      leftNext.bare = rightNext.bare → bare (next a leftNext) = bare (next a rightNext)) :
    bare ((act >>= next) left) = bare ((act >>= next) right) := by
  rcases bare_cases _ _ same with ⟨a, leftNext, rightNext, leftDone, rightDone, stores⟩ |
    ⟨fault, leftNext, rightNext, leftDone, rightDone, stores⟩
  · simpa only [bind, EStateM.bind, leftDone, rightDone] using
      rest a leftNext rightNext leftDone rightDone stores
  · simp only [bind, EStateM.bind, leftDone, rightDone, bare, stores]

theorem bare_look {α β : Type} (look : Store → Except Fault α) (next : α → Action β)
    (left right : Store) (stores : left.bare = right.bare) (same : look left = look right)
    (rest : ∀ a, look left = .ok a → bare (next a left) = bare (next a right)) :
    bare ((inspect look >>= next) left) = bare ((inspect look >>= next) right) := by
  cases outcome : look left with
  | ok a => simpa only [bind, EStateM.bind, inspect, outcome, ← same] using rest a outcome
  | error fault => simp only [bind, EStateM.bind, inspect, outcome, ← same, bare, stores]

theorem bare_read {α β : Type} (look : Store → Except Fault α) (next : α → Action β)
    (left right : Store) (a : α) (read : look left = .ok a) (same : look left = look right)
    (rest : bare (next a left) = bare (next a right)) :
    bare ((inspect look >>= next) left) = bare ((inspect look >>= next) right) := by
  simpa only [bind, EStateM.bind, inspect, read, ← same] using rest

end Action
end DomainDiagram
