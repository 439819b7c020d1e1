import DomainDiagram.Store

set_option autoImplicit false

namespace DomainDiagram.Action

-- Counts fit in 32 bits.
def countBound : Nat := 1 <<< 32

-- Protects f from collection until it is released once more than before.
def hold (f : Ref) : Action Ref := fun store =>
  if f.isTerminal then .ok f store
  else
    match store.arena[f]?, store.counts[f]? with
    | some (.live _), some count =>
        if count + 1 < countBound then
          .ok f { store with counts := store.counts.setIfInBounds f (count + 1) }
        else .error (.countOverflow f) store
    | some .free, _ => .error (.holdReclaimed f) store
    | _, _ => .error (.outsideArena f) store

def release (f : Ref) : Action Unit := fun store =>
  if f.isTerminal then .ok () store
  else
    match store.counts[f]? with
    | some (count + 1) => .ok () { store with counts := store.counts.setIfInBounds f count }
    | some 0 => .error (.notHeld f) store
    | none => .error (.outsideArena f) store

end DomainDiagram.Action
