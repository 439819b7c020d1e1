import DomainDiagram.Store

set_option autoImplicit false

namespace DomainDiagram

namespace Store

def checkAllocated (store : Store) (v : Var) : Except Fault Unit :=
  if v = 0 ∨ store.numVars < v then .error (.unallocated v) else .ok ()

-- A child has to be in use and to stand below the variable tested above it.
def checkBelow (store : Store) (v : Var) (child : Ref) : Except Fault Unit :=
  match store.topVar child with
  | .ok none => .ok ()
  | .ok (some w) => if v < w then .ok () else .error (.unordered v)
  | .error fault => .error fault

def find? (store : Store) (node : Node) : Option Ref :=
  match store.levels[node.var - 1]? with
  | some level => level.find? node.low node.high
  | none => none

-- The slot given back last is used first; the arena grows only when none is left.
def place (store : Store) (node : Node) : Ref × Store :=
  match store.free with
  | f :: rest =>
      (f, { store with
            free := rest
            arena := store.arena.setIfInBounds f (.live node)
            counts := store.counts.setIfInBounds f 0
            levels := store.levels.modify (node.var - 1) (·.insert node.low node.high f) })
  | [] =>
      let f := store.arena.size
      (f, { store with
            arena := store.arena.push (.live node)
            counts := store.counts.push 0
            levels := store.levels.modify (node.var - 1) (·.insert node.low node.high f) })

end Store

namespace Action

-- The node "if v then high else low": found if it exists, made if it does not.
def branch (v : Var) (low high : Ref) : Action Ref := do
  inspect (·.checkAllocated v)
  if low = high then return low
  inspect (·.checkBelow v low)
  inspect (·.checkBelow v high)
  fun store =>
    match store.find? ⟨v, low, high⟩ with
    | some f => .ok f store
    | none =>
        match store.place ⟨v, low, high⟩ with
        | (f, store) => .ok f store

def literal (v : Var) (value : Bool) : Action Ref :=
  if value then branch v 0 1 else branch v 1 0

end Action

end DomainDiagram
