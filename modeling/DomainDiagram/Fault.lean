import DomainDiagram.Node

set_option autoImplicit false

namespace DomainDiagram

-- Why an operation on a store broke off. The store keeps what had been done
-- to it before that point.
inductive Fault where
  | reclaimed (f : Ref)
  | outsideArena (f : Ref)
  | noVariable (f : Ref)
  | belowRoot (v : Var)
  | unallocated (v : Var)
  | unordered (v : Var)
  | redundant (v : Var)
  | reservedVariable
  | variableOverflow
  | holdReclaimed (f : Ref)
  | notHeld (f : Ref)
  | countOverflow (f : Ref)
  | tooManySlots (bits : Nat)
  | capacityOverflow
  | noSuchBit (i : Nat)
  | endlessPath
deriving DecidableEq

namespace Fault

-- A fault without a text of its own is reported by its occurrence alone.
def message : Fault → Option String
  | .reclaimed f => some s!"Node {f.text} was reclaimed"
  | .noVariable f => some s!"Terminal {f.text} has no variable"
  | .unallocated v => some s!"Variable {v.text} is not allocated"
  | .unordered v => some s!"Ordering violated at {v.text}"
  | .holdReclaimed f => some s!"Holding reclaimed node {f.text}"
  | .notHeld f => some s!"Releasing unreferenced node {f.text}"
  | .tooManySlots bits => some s!"Cache size too big: 2^{bits}"
  | .outsideArena _ | .belowRoot _ | .redundant _ | .reservedVariable | .variableOverflow
  | .countOverflow _ | .capacityOverflow | .noSuchBit _ | .endlessPath => none

end Fault

namespace Var

def ofNumber (n : Nat) : Except Fault Var := if n = 0 then .error .reservedVariable else .ok n

def offset (v : Var) (n : Nat) : Except Fault Var :=
  if v + n < bound then ofNumber (v + n) else .error .variableOverflow

end Var

namespace Node

def make (v : Var) (low high : Ref) : Except Fault Node :=
  if low = high then .error (.redundant v) else .ok ⟨v, low, high⟩

end Node

end DomainDiagram
