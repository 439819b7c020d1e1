import DomainDiagram.Boolean
import Std.Data.TreeMap

set_option autoImplicit false

namespace DomainDiagram

-- New names for variables. The identity is drawn afresh at every change, so
-- that results kept for an older state of the map are never taken for it.
structure Renaming where
  id : Nat
  map : Std.TreeMap Var Var

namespace Renaming

def empty (id : Nat) : Renaming := ⟨id, ∅⟩

def get? (names : Renaming) (v : Var) : Option Var := names.map[v]?

def size (names : Renaming) : Nat := names.map.size

def isEmpty (names : Renaming) : Bool := names.map.isEmpty

def toList (names : Renaming) : List (Var × Var) := names.map.toList

def put (names : Renaming) (fresh : Nat) (v w : Var) : Renaming :=
  ⟨fresh, names.map.insert v w⟩

-- One identity is drawn for every pair; the next one still free comes second.
def putAll (names : Renaming) (fresh : Nat) : List (Var × Var) → Renaming × Nat
  | [] => (names, fresh)
  | (v, w) :: rest => (names.put fresh v w).putAll (fresh + 1) rest

end Renaming

namespace Store

def checkPair (store : Store) (v w : Var) : Except Refusal Unit := do
  store.checkVar v
  store.checkVar w

end Store

namespace Action

def renameFrom (names : Renaming) : Nat → Ref → Action Ref
  | 0, _ => throw .endlessPath
  | steps + 1, f =>
      if f.isTerminal then return f
      else
        memoized (.rename f names.id) do
          let node ← inspect (·.node f)
          let low ← renameFrom names steps node.low
          let high ← renameFrom names steps node.high
          let test ← literal ((names.get? node.var).getD node.var) true
          choose test high low

-- All variables are renamed at once. A new name may stand anywhere in the
-- order, so the result is put together again by "if then else".
def rename (names : Renaming) (f : Ref) : Action Ref := do
  if names.isEmpty then return f
  renameFrom names (← get).steps f

end Action

end DomainDiagram
