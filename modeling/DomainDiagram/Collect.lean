import DomainDiagram.Reach

set_option autoImplicit false

namespace DomainDiagram

structure Sweep where
  roots : Nat
  alive : Nat
  freed : Nat
deriving DecidableEq

namespace Store

def isLive (store : Store) (f : Ref) : Bool :=
  match store.arena[f]? with
  | some (.live _) => true
  | _ => false

def isHeld (store : Store) (f : Ref) : Bool :=
  match store.counts[f]? with
  | some count => decide (0 < count)
  | none => false

def decisions (store : Store) : List Ref := List.range' 2 (store.arena.size - 2)

def roots (store : Store) : List Ref := store.decisions.filter store.isHeld

def garbage (store : Store) (alive : Std.TreeSet Ref) : List Ref :=
  store.decisions.filter fun f => store.isLive f && !alive.contains f

-- The slots given back go on top of the free ones, the highest index last.
def sweep (store : Store) (alive : Std.TreeSet Ref) : Store :=
  { store with
    arena := store.arena.mapIdx fun (f : Ref) slot =>
      if f.isTerminal || alive.contains f then slot else .free
    free := (store.garbage alive).reverse ++ store.free
    levels := store.levels.map (·.retain alive.contains) }

end Store

namespace Action

-- Keeps what can be reached from a held node, and nothing else. Kept results
-- may name nodes that go, so they are forgotten.
def collect : Action Sweep := fun store =>
  let store := { store with memo := store.memo.clear }
  let roots := store.roots
  match store.reach roots with
  | .ok alive =>
      .ok ⟨roots.length, alive.size - 2, (store.garbage alive).length⟩ (store.sweep alive)
  | .error fault => .error fault store

end Action

end DomainDiagram
