import DomainDiagram.Branch
import DomainDiagram.Reach

set_option autoImplicit false

namespace DomainDiagram.Action

def combineFrom (op : Connective) : Nat → Ref → Ref → Action Ref
  | 0, _, _ => throw .endlessPath
  | steps + 1, f, g =>
      match op.shortcut f g with
      | some result => return result
      | none =>
          memoized (.commuted op f g) do
            let above ← inspect (·.depth f)
            let beside ← inspect (·.depth g)
            let v := min above beside
            let (f0, f1) ← inspect (·.cofactors f v)
            let (g0, g1) ← inspect (·.cofactors g v)
            let low ← combineFrom op steps f0 g0
            let high ← combineFrom op steps f1 g1
            branch v low high

def combine (op : Connective) (f g : Ref) : Action Ref := do
  combineFrom op (← get).steps f g

def negateFrom : Nat → Ref → Action Ref
  | 0, _ => throw .endlessPath
  | steps + 1, f =>
      if f.isTerminal then return Ref.constant f.isZero
      else
        memoized (.negate f) do
          let node ← inspect (·.node f)
          let low ← negateFrom steps node.low
          let high ← negateFrom steps node.high
          branch node.var low high

def negate (f : Ref) : Action Ref := do
  negateFrom (← get).steps f

-- "If f then g else h".
def chooseFrom : Nat → Ref → Ref → Ref → Action Ref
  | 0, _, _, _ => throw .endlessPath
  | steps + 1, f, g, h =>
      if f.isOne || g == h then return g
      else if f.isZero then return h
      else if g.isOne && h.isZero then return f
      else if g.isZero && h.isOne then negate f
      else if g.isOne then combine .or f h
      else if h.isZero then combine .and f g
      else
        memoized (.choose f g h) do
          let first ← inspect (·.depth f)
          let second ← inspect (·.depth g)
          let third ← inspect (·.depth h)
          let v := min first (min second third)
          let (f0, f1) ← inspect (·.cofactors f v)
          let (g0, g1) ← inspect (·.cofactors g v)
          let (h0, h1) ← inspect (·.cofactors h v)
          let low ← chooseFrom steps f0 g0 h0
          let high ← chooseFrom steps f1 g1 h1
          branch v low high

def choose (f g h : Ref) : Action Ref := do
  chooseFrom (← get).steps f g h

def conjunction (fs : List Ref) : Action Ref := fs.foldlM (combine .and) 1

def disjunction (fs : List Ref) : Action Ref := fs.foldlM (combine .or) 0

end DomainDiagram.Action
