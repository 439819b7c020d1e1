import DomainDiagram.Connective

set_option autoImplicit false

namespace DomainDiagram

-- What an operation was asked: the question under which its result is kept.
inductive OpKey where
  | combine (op : Connective) (f g : Ref)
  | negate (f : Ref)
  | choose (f g h : Ref)
  | quantify (q : Quantifier) (f set : Ref)
  | rename (f : Ref) (table : Nat)
deriving DecidableEq

-- Connectives commute, so a pair of operands is kept in one order only.
def OpKey.commuted (op : Connective) (f g : Ref) : OpKey :=
  if f ≤ g then .combine op f g else .combine op g f

-- Pairs (a, b) are numbered along the edges of growing squares. On operands
-- below 2^32 nothing wraps and each number is taken once.
def squarePair (a b : UInt64) : UInt64 := if a < b then b * b + a else a * a + a + b

def squareTriple (a b c : UInt64) : UInt64 := squarePair (squarePair a b) c

namespace Connective

def code : Connective → UInt64
  | .and => 0
  | .or => 1
  | .xor => 2
  | .biimp => 3

end Connective

namespace Quantifier

def code : Quantifier → UInt64
  | .any => 6
  | .all => 7

end Quantifier

namespace OpKey

def hash : OpKey → UInt64
  | .combine op f g => squareTriple op.code (.ofNat f) (.ofNat g)
  | .negate f => squarePair 4 (.ofNat f)
  | .choose f g h => squarePair 5 (squareTriple (.ofNat f) (.ofNat g) (.ofNat h))
  | .quantify q f set => squareTriple q.code (.ofNat f) (.ofNat set)
  | .rename f table => squareTriple 8 (.ofNat f) (.ofNat table)

end OpKey

end DomainDiagram
