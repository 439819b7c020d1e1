import DomainDiagram.Boolean

set_option autoImplicit false

namespace DomainDiagram

-- A set of variables is kept as a cube, the conjunction of its members: each
-- member is a node whose high child is the rest of the set.
namespace Store

def membersFrom (store : Store) : Nat → Ref → Except Fault (List Var)
  | 0, _ => .error .endlessPath
  | steps + 1, set =>
      if set.isTerminal then .ok []
      else do
        let node ← store.node set
        let rest ← store.membersFrom steps node.high
        return node.var :: rest

def members (store : Store) (set : Ref) : Except Fault (List Var) :=
  store.membersFrom store.steps set

def dropAboveFrom (store : Store) (v : Var) : Nat → Ref → Except Fault Ref
  | 0, _ => .error .endlessPath
  | steps + 1, set =>
      if set.isTerminal then .ok set
      else do
        let node ← store.node set
        if node.var < v then store.dropAboveFrom v steps node.high else return set

-- The part of the set from v downwards.
def dropAbove (store : Store) (v : Var) (set : Ref) : Except Fault Ref :=
  store.dropAboveFrom v store.steps set

end Store

namespace Action

def cube (vars : List Var) : Action Ref :=
  (Var.sorted vars).foldrM (fun v rest => branch v 0 rest) 1

def quantifyFrom (q : Quantifier) : Nat → Ref → Ref → Action Ref
  | 0, _, _ => throw .endlessPath
  | steps + 1, f, set => do
      if f.isTerminal then return f
      let node ← inspect (·.node f)
      let set ← inspect (·.dropAbove node.var set)
      if set.isTerminal then return f
      memoized (.quantify q f set) do
        let member ← inspect (·.node set)
        if member.var = node.var then
          let low ← quantifyFrom q steps node.low member.high
          let high ← quantifyFrom q steps node.high member.high
          combine q.connective low high
        else
          let low ← quantifyFrom q steps node.low set
          let high ← quantifyFrom q steps node.high set
          branch node.var low high

def quantify (q : Quantifier) (f set : Ref) : Action Ref := do
  quantifyFrom q (← get).steps f set

end Action

end DomainDiagram
