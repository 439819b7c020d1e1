import DomainDiagram.Quantify

set_option autoImplicit false

namespace DomainDiagram

-- A function put together in one store.
inductive Construction where
  | literal (v : Var) (value : Bool)
  | branch (v : Var) (low high : Ref)
  | combine (op : Connective) (f g : Ref)
  | negate (f : Ref)
  | choose (f g h : Ref)
  | conjunction (fs : List Ref)
  | disjunction (fs : List Ref)
  | cube (vars : List Var)
  | quantify (q : Quantifier) (f set : Ref)
deriving DecidableEq

namespace Construction

def run : Construction → Action Ref
  | .literal v value => .literal v value
  | .branch v low high => .branch v low high
  | .combine op f g => .combine op f g
  | .negate f => .negate f
  | .choose f g h => .choose f g h
  | .conjunction fs => .conjunction fs
  | .disjunction fs => .disjunction fs
  | .cube vars => .cube vars
  | .quantify q f set => .quantify q f set

end Construction

end DomainDiagram
