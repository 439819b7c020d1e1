import DomainDiagram.Store

set_option autoImplicit false

namespace DomainDiagram

inductive Failure where
  | refused (refusal : Refusal)
  | broken (fault : Fault)
  | absent
deriving DecidableEq

-- A request is turned down with nothing changed, or acted upon.
abbrev Request := EStateM Failure Store

namespace Request

@[inline] def perform {α : Type} (act : Action α) : Request α := fun store =>
  match act store with
  | .ok a store => .ok a store
  | .error fault store => .error (.broken fault) store

@[inline] def afterCheck {α β : Type} (check : Store → Except Refusal α) (act : α → Action β) :
    Request β := fun store =>
  match check store with
  | .ok a => perform (act a) store
  | .error refusal => .error (.refused refusal) store

-- New variables, of which the first is answered.
def newVars (n : Nat) : Request Var :=
  afterCheck (·.nextVar n) fun first store => .ok first (store.grow n)

end Request

end DomainDiagram
