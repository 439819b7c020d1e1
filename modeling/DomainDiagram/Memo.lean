import DomainDiagram.Fault
import DomainDiagram.OpKey
import Std.Data.TreeMap

set_option autoImplicit false

namespace DomainDiagram

-- A table of 2^bits slots, each holding the latest result that fell into it.
-- Only filled slots are stored, and their number is kept beside them.
structure Memo where
  bits : Nat
  slots : Std.TreeMap Nat (OpKey × Ref)
  filled : Nat
  hits : Nat
  misses : Nat

namespace Memo

def maxBits : Nat := 31

def empty (bits : Nat) : Memo := ⟨bits, ∅, 0, 0, 0⟩

def create (bits : Nat) : Except Fault Memo :=
  if bits ≤ maxBits then .ok (empty bits) else .error (.tooManySlots bits)

def capacity (memo : Memo) : Nat := 1 <<< memo.bits

def slot (memo : Memo) (key : OpKey) : Nat := key.hash.toNat % memo.capacity

def size (memo : Memo) : Nat := memo.filled

def isEmpty (memo : Memo) : Bool := memo.filled == 0

def find? (memo : Memo) (key : OpKey) : Option Ref :=
  match memo.slots[memo.slot key]? with
  | some (kept, result) => if kept = key then some result else none
  | none => none

-- A lookup is counted as a hit or a miss.
def consult (memo : Memo) (key : OpKey) : Option Ref × Memo :=
  match memo.find? key with
  | some result => (some result, { memo with hits := memo.hits + 1 })
  | none => (none, { memo with misses := memo.misses + 1 })

def insert (memo : Memo) (key : OpKey) (result : Ref) : Memo :=
  { memo with
    slots := memo.slots.insert (memo.slot key) (key, result)
    filled := if memo.slots.contains (memo.slot key) then memo.filled else memo.filled + 1 }

-- Forgets the results and keeps the counts of hits and misses.
def clear (memo : Memo) : Memo := { memo with slots := ∅, filled := 0 }

end Memo

end DomainDiagram
