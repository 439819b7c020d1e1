import DomainDiagram.Node

set_option autoImplicit false

namespace DomainDiagram

inductive Connective where
  | and
  | or
  | xor
  | biimp
deriving DecidableEq

namespace Connective

def eval : Connective → Bool → Bool → Bool
  | .and, a, b => a && b
  | .or, a, b => a || b
  | .xor, a, b => a != b
  | .biimp, a, b => a == b

-- The operand pairs whose result needs no look at the diagrams.
def shortcut (op : Connective) (f g : Ref) : Option Ref :=
  if f.isTerminal && g.isTerminal then some (Ref.constant (op.eval f.isOne g.isOne))
  else
    match op with
    | .and =>
        if f.isZero || g.isZero then some 0
        else if f.isOne || f == g then some g
        else if g.isOne then some f
        else none
    | .or =>
        if f.isOne || g.isOne then some 1
        else if f.isZero || f == g then some g
        else if g.isZero then some f
        else none
    | .xor =>
        if f == g then some 0
        else if f.isZero then some g
        else if g.isZero then some f
        else none
    | .biimp =>
        if f == g then some 1
        else if f.isOne then some g
        else if g.isOne then some f
        else none

end Connective

-- Binding a variable away joins the two cofactors by "or" or by "and".
inductive Quantifier where
  | any
  | all
deriving DecidableEq

namespace Quantifier

def connective : Quantifier → Connective
  | .any => .or
  | .all => .and

end Quantifier

end DomainDiagram
