import DomainDiagram.BlockPairing
import DomainDiagram.Collect

set_option autoImplicit false

namespace DomainDiagram

-- What a run reports on the way.
inductive Event where
  | created (id : Nat) (config : Config)
  | grown (n : Nat) (first : Var) (total : Nat)
  | collecting
  | collected (sweep : Sweep)
  | paired (v w : Var)
  | extended (index size : Nat) (vars : List Var)
  | overlapped (left right index size : Nat)
  | tornDown (blocks : Nat)
  | blocksPaired (source target : Nat)
  | printed (group : String)

-- The part of the library that a report comes from.
inductive Event.Origin where
  | store
  | renaming
  | table
  | blockPairing
  | printing
deriving DecidableEq

inductive Event.Detail where
  | debug
  | trace
deriving DecidableEq

namespace Event

def origin : Event → Origin
  | .created .. | .grown .. | .collecting | .collected .. => .store
  | .paired .. => .renaming
  | .extended .. | .overlapped .. | .tornDown .. => .table
  | .blocksPaired .. => .blockPairing
  | .printed .. => .printing

def detail : Event → Detail
  | .printed .. => .trace
  | _ => .debug

def text : Event → String
  | .created id config => s!"Bdd #{id} created with {config.text}"
  | .grown n first total => s!"new_vars(n = {n}) -> first = {first.text}, total = {total}"
  | .collecting => "Collecting garbage..."
  | .collected sweep =>
      s!"Garbage collected: {sweep.roots} roots, {sweep.alive} alive, {sweep.freed} freed"
  | .paired v w => s!"set_pair: {v.text} -> {w.text}"
  | .extended index size vars =>
      let list := ", ".intercalate (vars.map Var.text)
      s!"extend: block {index} of size {size} -> [{list}]"
  | .overlapped left right index size =>
      s!"overlap({left}, {right}) -> block {index} of size {size}"
  | .tornDown blocks => s!"teardown: releasing {blocks} blocks"
  | .blocksPaired source target => s!"pairing: block {source} -> block {target}"
  | .printed group => s!"printset leaf: {group}"

def ofPair (pair : BlockPair) : List Event :=
  .blocksPaired pair.source pair.target :: pair.vars.map fun (v, w) => .paired v w

def ofBlocks : Nat → List Block → List Event
  | _, [] => []
  | index, block :: rest => .extended index block.size block.vars :: ofBlocks (index + 1) rest

def ofExtension (before after : BlockTable) (store : Store) : List Event :=
  match after.blocks.toList.drop before.size with
  | [] => []
  | added =>
      let n := BlockTable.total (added.map Block.width)
      .grown n (store.numVars - n + 1) store.numVars :: ofBlocks before.size added

def ofOverlap (before after : BlockTable) (left right : Nat) : List Event :=
  (after.blocks.toList.drop before.size).map fun block =>
    .overlapped left right before.size block.size

end Event

end DomainDiagram
