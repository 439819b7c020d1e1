import DomainDiagram.BlockTable
import DomainDiagram.Renaming

set_option autoImplicit false

namespace DomainDiagram

-- A block renamed to another one, with the pairs of variables that it takes.
structure BlockPair where
  source : Nat
  target : Nat
  vars : List (Var × Var)
deriving DecidableEq

namespace BlockTable

-- Bits of equal weight are paired.
def pairBlocks (table : BlockTable) (source target : Nat) : Except Refusal BlockPair := do
  let a ← table.block source
  let b ← table.block target
  if a.width ≠ b.width then throw (.mismatch .bitWidth source target a.width b.width)
  return ⟨source, target, a.vars.zip b.vars⟩

-- The pairs up to the first two blocks of different width, and that mismatch.
def pairWhile (table : BlockTable) : List (Nat × Nat) → List BlockPair × Except Refusal Unit
  | [] => ([], .ok ())
  | (source, target) :: rest =>
      match table.pairBlocks source target with
      | .ok pair =>
          let (pairs, outcome) := table.pairWhile rest
          (pair :: pairs, outcome)
      | .error refusal => ([], .error refusal)

def planPair (table : BlockTable) (source target : Nat) (store : Store) :
    List BlockPair × Except Refusal Unit :=
  match table.checkOwner store with
  | .ok () => table.pairWhile [(source, target)]
  | .error refusal => ([], .error refusal)

def checkBlocks (table : BlockTable) : List (Nat × Nat) → Except Refusal Unit
  | [] => .ok ()
  | (source, target) :: rest => do
      let _ ← table.block source
      let _ ← table.block target
      table.checkBlocks rest

-- A bad index anywhere in the list leaves nothing to be paired.
def planPairs (table : BlockTable) (pairs : List (Nat × Nat)) (store : Store) :
    List BlockPair × Except Refusal Unit :=
  match table.checkOwner store with
  | .ok () =>
      match table.checkBlocks pairs with
      | .ok () => table.pairWhile pairs
      | .error refusal => ([], .error refusal)
  | .error refusal => ([], .error refusal)

end BlockTable

namespace Renaming

def putBlocks (names : Renaming) (fresh : Nat) : List BlockPair → Renaming × Nat
  | [] => (names, fresh)
  | pair :: rest =>
      let (names, fresh) := names.putAll fresh pair.vars
      names.putBlocks fresh rest

end Renaming

end DomainDiagram
