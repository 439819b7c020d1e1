import DomainDiagram.BlockTable

set_option autoImplicit false

namespace DomainDiagram

-- Each of these works up from the least significant bit and keeps what it has
-- so far held while the next bit is joined to it. The result is not held.
namespace Action

def spell : List Var → Nat → Ref → Action Ref
  | [], _, done => return done
  | v :: rest, value, done => do
      let _ ← hold done
      let bit ← literal v (value % 2 == 1)
      let next ← combine .and bit done
      release done
      spell rest (value / 2) next

def atMost : List Var → Nat → Ref → Action Ref
  | [], _, done => do
      release done
      return done
  | v :: rest, value, done => do
      let bit ← literal v false
      let next ← combine (if value % 2 == 1 then .or else .and) bit done
      let _ ← hold next
      release done
      atMost rest (value / 2) next

def alike : List (Var × Var) → Ref → Action Ref
  | [], done => do
      release done
      return done
  | (v, w) :: rest, done => do
      let left ← literal v true
      let right ← literal w true
      let bit ← combine .biimp left right
      let _ ← hold bit
      let next ← combine .and done bit
      let _ ← hold next
      release bit
      release done
      alike rest next

def union : List Ref → Ref → Action Ref
  | [], done => return done
  | set :: rest, done => do
      let _ ← hold done
      let next ← combine .and set done
      release done
      union rest next

end Action

namespace BlockTable

def planValue (table : BlockTable) (index value : Nat) (store : Store) : Except Refusal Block := do
  table.checkOwner store
  let block ← table.block index
  if block.size < value then throw (.valueTooLarge index value block.size)
  return block

-- True where the block spells the value. One value past the last is let
-- through, and bits of a value beyond the block's width are dropped.
def valueIs (table : BlockTable) (index value : Nat) : Request Ref :=
  Request.afterCheck (table.planValue index value) fun block => Action.spell block.bits value 1

def planBlock (table : BlockTable) (index : Nat) (store : Store) : Except Refusal Block := do
  table.checkOwner store
  table.block index

-- True where the block spells a number below its size.
def legal (table : BlockTable) (index : Nat) : Request Ref :=
  Request.afterCheck (table.planBlock index) fun block =>
    Action.atMost block.bits (block.size - 1) 1

def planEqual (table : BlockTable) (left right : Nat) (store : Store) :
    Except Refusal (Block × Block) := do
  table.checkOwner store
  let a ← table.block left
  let b ← table.block right
  if a.size ≠ b.size then throw (.mismatch .size left right a.size b.size)
  if a.width ≠ b.width then throw (.mismatch .bitWidth left right a.width b.width)
  return (a, b)

-- True where both blocks spell the same number.
def equal (table : BlockTable) (left right : Nat) : Request Ref :=
  Request.afterCheck (table.planEqual left right) fun (a, b) => do
    let start ← Action.hold 1
    Action.alike (a.bits.zip b.bits) start

def varset (table : BlockTable) (index : Nat) : Except Refusal Ref :=
  (·.varset) <$> table.block index

def planUnion (table : BlockTable) (indices : List Nat) (store : Store) :
    Except Refusal (List Ref) := do
  table.checkOwner store
  indices.mapM table.varset

-- The set of the variables of all the blocks named.
def varsetOf (table : BlockTable) (indices : List Nat) : Request Ref :=
  Request.afterCheck (table.planUnion indices) fun sets => Action.union sets 1

-- The blocks with a variable that f tests, in the order of their indices.
def blocksOf (table : BlockTable) (f : Ref) (store : Store) : Except Failure (List Nat) :=
  match table.checkOwner store with
  | .error refusal => .error (.refused refusal)
  | .ok () =>
      match store.support f with
      | .error fault => .error (.broken fault)
      | .ok support =>
          let tested := Std.TreeSet.ofList support
          let tests := fun block : Block => block.vars.any tested.contains
          .ok ((table.blocks.toList.filter tests).map (·.index))

end BlockTable

-- A function that says something about the blocks of one table.
inductive Encoding where
  | value (index value : Nat)
  | legal (index : Nat)
  | equal (left right : Nat)
  | varset (indices : List Nat)
deriving DecidableEq

namespace Encoding

def run (table : BlockTable) : Encoding → Request Ref
  | .value index n => table.valueIs index n
  | .legal index => table.legal index
  | .equal left right => table.equal left right
  | .varset indices => table.varsetOf indices

end Encoding

end DomainDiagram
