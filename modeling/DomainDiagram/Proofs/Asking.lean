import DomainDiagram.Proofs.Collecting
import DomainDiagram.Query

set_option autoImplicit false

namespace DomainDiagram

namespace Store

@[simp] theorem size_bare (store : Store) (f : Ref) : store.bare.size f = store.size f := by
  simp only [size, reach_bare]

@[simp] theorem diagram_bare (store : Store) (fs : List Ref) : store.bare.diagram fs = store.diagram fs := by
  simp only [diagram, reach_bare, node_bare]

@[simp] theorem support_bare (store : Store) (f : Ref) : store.bare.support f = store.support f := by
  simp only [support, reach_bare, var_of_bare]

@[simp] theorem bracket_bare (store : Store) (f : Ref) : store.bare.bracket f = store.bracket f := by
  have each : ∀ steps g, store.bare.bracketFrom steps g = store.bracketFrom steps g := by
    intro steps
    induction steps with
    | zero => exact fun g => rfl
    | succ steps ih => simp only [bracketFrom, node_bare, ih, implies_true]
  exact each store.steps f

@[simp] theorem members_bare (store : Store) (set : Ref) : store.bare.members set = store.members set := by
  have each : ∀ steps g, store.bare.membersFrom steps g = store.membersFrom steps g := by
    intro steps
    induction steps with
    | zero => exact fun g => rfl
    | succ steps ih => simp only [membersFrom, node_bare, ih, implies_true]
  exact each store.steps set

@[simp] theorem model_bare (store : Store) (f : Ref) : store.bare.model f = store.model f := by
  have each : ∀ steps g, store.bare.modelFrom steps g = store.modelFrom steps g := by
    intro steps
    induction steps with
    | zero => exact fun g => rfl
    | succ steps ih => simp only [modelFrom, node_bare, ih, implies_true]
  simp only [model, each, steps_bare]

@[simp] theorem models_bare (store : Store) (f : Ref) : store.bare.models f = store.models f := by
  have each : ∀ full steps g counts,
      store.bare.modelsFrom full steps g counts = store.modelsFrom full steps g counts := by
    intro full steps
    induction steps with
    | zero => exact fun g counts => rfl
    | succ steps ih => simp only [modelsFrom, node_bare, ih, implies_true]
  simp only [models, each, steps_bare, vars_bare]

@[simp] theorem models_over_bare (store : Store) (f set : Ref) :
    store.bare.modelsOver f set = store.modelsOver f set := by
  simp only [modelsOver, members_bare, models_bare, vars_bare]

theorem answer_bare (store : Store) (question : Question) :
    store.bare.answer question = store.answer question := by
  cases question with
  | size | diagram | bracket | support | members | model | models | modelsOver => simp [answer]
  | checkVar | numVars | numNodes | node | varOf | topVar | cofactors | count => rfl

end Store

namespace BlockTable

@[simp] theorem check_owner_bare (table : BlockTable) (store : Store) :
    table.checkOwner store.bare = table.checkOwner store := rfl

theorem blocks_of_bare (table : BlockTable) (f : Ref) (store : Store) :
    table.blocksOf f store.bare = table.blocksOf f store := by
  simp only [blocksOf, check_owner_bare, Store.support_bare]

theorem print_bare {σ : Type} (table : BlockTable) (store : Store) (write : σ → String → Bool × σ)
    (f : Ref) : table.print store.bare write f = table.print store write f := by
  have each : ∀ steps g path,
      table.printFrom store.bare write steps g path = table.printFrom store write steps g path := by
    intro steps
    induction steps with
    | zero => exact fun g path => rfl
    | succ steps ih => simp only [printFrom, Store.node_bare, ih, implies_true]
  simp only [print, check_owner_bare, each, Store.steps_bare]

end BlockTable

theorem Workspace.ask_told (ws : Workspace) (m : Nat) (question : Question) (store : Store)
    (found : ws.stores[m]? = some store) : (ws.look (.ask m question)).1 = .fact (store.answer question) := by
  simp only [look, factOf, Workspace.store, found]

end DomainDiagram
