import DomainDiagram.Store
import Std.Data.TreeSet

set_option autoImplicit false

namespace DomainDiagram

namespace Var

def sorted (vars : List Var) : List Var := (Std.TreeSet.ofList vars).toList

end Var

namespace Store

-- No path of an ordered diagram is longer than the number of variables, so
-- a walk with one step more than that ends.
def steps (store : Store) : Nat := store.numVars + 1

def mark (store : Store) : Nat → Std.TreeSet Ref → Ref → Except Fault (Std.TreeSet Ref)
  | 0, _, _ => .error .endlessPath
  | steps + 1, seen, f =>
      if seen.contains f then .ok seen
      else
        match store.node f with
        | .ok node =>
            match store.mark steps (seen.insert f) node.low with
            | .ok seen => store.mark steps seen node.high
            | .error fault => .error fault
        | .error fault => .error fault

-- Everything reachable from the roots, and the two terminals in any case.
def reach (store : Store) (roots : List Ref) : Except Fault (Std.TreeSet Ref) :=
  roots.foldlM (store.mark store.steps) (.ofList [0, 1])

def size (store : Store) (f : Ref) : Except Fault Nat :=
  if f.isTerminal then .ok 1 else (·.size) <$> store.reach [f]

def diagram (store : Store) (roots : List Ref) : Except Fault (List (Ref × Node)) := do
  let seen ← store.reach roots
  seen.toList.mapM fun f => (f, ·) <$> store.node f

-- The variables tested anywhere in f, in their order.
def support (store : Store) (f : Ref) : Except Fault (List Var) := do
  let seen ← store.reach [f]
  let vars ← (seen.toList.filter (!·.isTerminal)).mapM store.varOf
  return Var.sorted vars

def bracketFrom (store : Store) : Nat → Ref → Except Fault String
  | 0, _ => .error .endlessPath
  | steps + 1, f =>
      if f.isZero then .ok "(0)"
      else if f.isOne then .ok "(1)"
      else do
        let node ← store.node f
        let high ← store.bracketFrom steps node.high
        let low ← store.bracketFrom steps node.low
        return s!"{f.text}:({node.var.text}, {high}, {low})"

def bracket (store : Store) (f : Ref) : Except Fault String := store.bracketFrom store.steps f

end Store

end DomainDiagram
