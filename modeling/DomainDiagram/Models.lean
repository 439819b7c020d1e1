import DomainDiagram.Quantify

set_option autoImplicit false

namespace DomainDiagram.Store

def modelFrom (store : Store) : Nat → Ref → Except Fault (List (Var × Bool))
  | 0, _ => .error .endlessPath
  | steps + 1, f =>
      if f.isOne then .ok []
      else do
        let node ← store.node f
        if node.high.isZero then
          let rest ← store.modelFrom steps node.low
          return (node.var, false) :: rest
        else
          let rest ← store.modelFrom steps node.high
          return (node.var, true) :: rest

-- A path to true that takes "true" wherever it can.
def model (store : Store) (f : Ref) : Except Fault (Option (List (Var × Bool))) :=
  if f.isZero then .ok none else some <$> store.modelFrom store.steps f

abbrev Counts := Std.TreeMap Ref Nat

-- With full the number of all assignments, a node's count is the mean of its
-- children's: its variable is free in both.
def modelsFrom (store : Store) (full : Nat) : Nat → Ref → Counts → Except Fault (Nat × Counts)
  | 0, _, _ => .error .endlessPath
  | steps + 1, f, counts =>
      if f.isZero then .ok (0, counts)
      else if f.isOne then .ok (full, counts)
      else
        match counts[f]? with
        | some count => .ok (count, counts)
        | none => do
            let node ← store.node f
            let (low, counts) ← store.modelsFrom full steps node.low counts
            let (high, counts) ← store.modelsFrom full steps node.high counts
            let count := (low + high) / 2
            return (count, counts.insert f count)

-- The number of assignments to all variables that make f true.
def models (store : Store) (f : Ref) : Except Fault Nat :=
  (·.1) <$> store.modelsFrom (1 <<< store.numVars) store.steps f ∅

-- The number of assignments to the members of the set, for an f that depends
-- on no other variable.
def modelsOver (store : Store) (f set : Ref) : Except Fault Nat := do
  let members ← store.members set
  let count ← store.models f
  return count >>> (store.numVars - members.length)

end DomainDiagram.Store
