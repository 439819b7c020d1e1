set_option autoImplicit false

namespace DomainDiagram

-- Nodes live in an arena and are named by their index in it. Index 0 is the
-- constant false, index 1 the constant true, and decision nodes start at 2.
abbrev Ref := Nat

-- Variables are tested in the order of their numbers, which start at 1.
abbrev Var := Nat

namespace Ref

def constant (value : Bool) : Ref := if value then 1 else 0

def isZero (f : Ref) : Bool := f == 0

def isOne (f : Ref) : Bool := f == 1

def isTerminal (f : Ref) : Bool := decide (f ≤ 1)

def text (f : Ref) : String :=
  match f with
  | 0 => "⊥"
  | 1 => "⊤"
  | _ => s!"@{f}"

end Ref

namespace Var

def text (v : Var) : String := s!"x{v}"

-- Variable numbers fit in 32 bits.
def bound : Nat := 1 <<< 32

end Var

-- The decision "if variable then high else low". A terminal slot holds the
-- node of all zeros, whose variable is none.
structure Node where
  var : Var
  low : Ref
  high : Ref
deriving DecidableEq

namespace Node

def terminal : Node := ⟨0, 0, 0⟩

end Node

end DomainDiagram
