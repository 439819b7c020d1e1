import DomainDiagram.Node
import DomainDiagram.Fault

set_option autoImplicit false

namespace DomainDiagram

-- The bits needed to tell the values below size apart, and one at least.
def bitWidth (size : Nat) : Nat := (size - 1).log2 + 1

-- A group of variables that together spell one number below size in binary,
-- the most significant first. The set of them is kept as a cube. The index is
-- the place that the block was given in its table.
structure Block where
  index : Nat
  size : Nat
  vars : List Var
  varset : Ref
deriving DecidableEq

namespace Block

-- Sizes and values fit in 64 bits.
def sizeBound : Nat := 1 <<< 64

def width (block : Block) : Nat := block.vars.length

def bits (block : Block) : List Var := block.vars.reverse

def bit (block : Block) (i : Nat) : Except Fault Var :=
  match block.bits[i]? with
  | some v => .ok v
  | none => .error (.noSuchBit i)

end Block

-- One column of bits: a variable for each row that still has bits to place.
def dealColumn : Var → List (Nat × List Var) → Var × List (Nat × List Var)
  | next, [] => (next, [])
  | next, (0, placed) :: rest =>
      let (after, dealt) := dealColumn next rest
      (after, (0, placed) :: dealt)
  | next, (width + 1, placed) :: rest =>
      let (after, dealt) := dealColumn (next + 1) rest
      (after, (width, next :: placed) :: dealt)

def dealColumns : Nat → Var → List (Nat × List Var) → List (Nat × List Var)
  | 0, _, rows => rows
  | columns + 1, next, rows =>
      let (next, rows) := dealColumn next rows
      dealColumns columns next rows

-- Rows of the given widths share out consecutive variables column by column,
-- from the most significant bit down.
def interleave (first : Var) (widths : List Nat) : List (List Var) :=
  (dealColumns (widths.foldl max 0) first (widths.map (·, []))).map (·.2.reverse)

end DomainDiagram
