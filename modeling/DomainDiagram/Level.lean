import DomainDiagram.Node
import Std.Data.TreeMap

set_option autoImplicit false

namespace DomainDiagram

-- Pairs of children in the order of the low one, then of the high one.
def compareChildren : Ref × Ref → Ref × Ref → Ordering :=
  compareLex (compareOn Prod.fst) (compareOn Prod.snd)

instance : Std.TransCmp compareChildren :=
  inferInstanceAs (Std.TransCmp (compareLex (compareOn Prod.fst) (compareOn Prod.snd)))

instance : Std.LawfulEqCmp compareChildren where
  eq_of_compare := by
    intro a b same
    have parts := Ordering.then_eq_eq.mp same
    exact Prod.ext (Nat.compare_eq_eq.mp parts.1) (Nat.compare_eq_eq.mp parts.2)

-- The nodes that test one variable, found by their children.
structure Level where
  var : Var
  nodes : Std.TreeMap (Ref × Ref) Ref compareChildren

namespace Level

def empty (v : Var) : Level := ⟨v, ∅⟩

def find? (level : Level) (low high : Ref) : Option Ref := level.nodes[(low, high)]?

def insert (level : Level) (low high node : Ref) : Level :=
  { level with nodes := level.nodes.insert (low, high) node }

def retain (keep : Ref → Bool) (level : Level) : Level :=
  { level with nodes := level.nodes.filter fun _ node => keep node }

def size (level : Level) : Nat := level.nodes.size

def isEmpty (level : Level) : Bool := level.nodes.isEmpty

end Level

end DomainDiagram
