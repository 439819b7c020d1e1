import DomainDiagram.Block
import DomainDiagram.Hold
import DomainDiagram.Quantify
import DomainDiagram.Request

set_option autoImplicit false

namespace DomainDiagram

-- Blocks in the order of their indices. The table belongs to the store that
-- its variables were allocated in, from the first blocks on until it is torn down.
structure BlockTable where
  blocks : Array Block
  owner : Option Nat

namespace BlockTable

def empty : BlockTable := ⟨#[], none⟩

def size (table : BlockTable) : Nat := table.blocks.size

def isEmpty (table : BlockTable) : Bool := table.blocks.isEmpty

def block (table : BlockTable) (index : Nat) : Except Refusal Block :=
  match table.blocks[index]? with
  | some block => .ok block
  | none => .error (.noBlock index table.size)

def checkOwner (table : BlockTable) (store : Store) : Except Refusal Unit :=
  match table.owner with
  | some expected =>
      if expected = store.id then .ok () else .error (.foreignStore expected store.id)
  | none => .ok ()

def widths (sizes : List Nat) : Except Refusal (List Nat) :=
  sizes.mapM fun size => if size = 0 then .error (.emptyBlock size) else .ok (bitWidth size)

def total (widths : List Nat) : Nat := widths.foldr (· + ·) 0

-- The sizes of the new blocks with their variables.
def planExtend (table : BlockTable) (sizes : List Nat) (store : Store) :
    Except Refusal (List (Nat × List Var)) := do
  table.checkOwner store
  let widths ← widths sizes
  if sizes.isEmpty then return []
  let first ← store.nextVar (total widths)
  return sizes.zip (interleave first widths)

def makeBlock (index size : Nat) (vars : List Var) : Action Block := do
  let varset ← Action.cube vars
  let varset ← Action.hold varset
  return ⟨index, size, vars, varset⟩

def append (table : BlockTable) (rows : List (Nat × List Var)) : Action BlockTable := do
  if rows.isEmpty then return table
  modify (·.grow (total (rows.map (·.2.length))))
  let blocks ← (rows.zipIdx table.size).mapM fun ((size, vars), index) => makeBlock index size vars
  return ⟨table.blocks ++ blocks.toArray, some (← get).id⟩

-- One block for each size, on new variables of their own.
def extend (table : BlockTable) (sizes : List Nat) : Request BlockTable :=
  Request.afterCheck (table.planExtend sizes) table.append

def planOverlap (table : BlockTable) (left right : Nat) (store : Store) :
    Except Refusal (Block × Block) := do
  table.checkOwner store
  let a ← table.block left
  let b ← table.block right
  if a.size * b.size < Block.sizeBound then return (a, b)
  else throw (.sizeOverflow left right)

-- A block spelt by the variables of two others, the left one's leading.
def overlap (table : BlockTable) (left right : Nat) : Request BlockTable :=
  Request.afterCheck (table.planOverlap left right) fun (a, b) => do
    let varset ← Action.combine .and a.varset b.varset
    let varset ← Action.hold varset
    let block := ⟨table.size, a.size * b.size, a.vars ++ b.vars, varset⟩
    return { table with blocks := table.blocks.push block }

def releaseAll : List Block → Action Unit
  | [] => return ()
  | block :: rest => do
      Action.release block.varset
      releaseAll rest

-- Gives up every block and then the owner. When a set turns out not to be
-- held any more, the later ones stay held and the table keeps its owner.
def teardown (table : BlockTable) (store : Store) : Except Failure Unit × BlockTable × Store :=
  match table.checkOwner store with
  | .error refusal => (.error (.refused refusal), table, store)
  | .ok () =>
      match releaseAll table.blocks.toList store with
      | .ok () store => (.ok (), empty, store)
      | .error fault store => (.error (.broken fault), ⟨#[], table.owner⟩, store)

end BlockTable

end DomainDiagram
