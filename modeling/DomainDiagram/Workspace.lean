import DomainDiagram.Command
import DomainDiagram.Event

set_option autoImplicit false

namespace DomainDiagram

-- Stores, tables and renamings side by side, each named by its place in the
-- list. Identities are drawn in order and never given twice.
structure Workspace where
  stores : Array Store
  tables : Array BlockTable
  renamings : Array Renaming
  nextStore : Nat
  nextRenaming : Nat

structure Reply where
  outcome : Except Failure Answer
  events : List Event
  workspace : Workspace

namespace Workspace

def empty : Workspace := ⟨#[], #[], #[], 1, 1⟩

def store (ws : Workspace) (m : Nat) : Except Failure Store :=
  match ws.stores[m]? with
  | some store => .ok store
  | none => .error .absent

def table (ws : Workspace) (t : Nat) : Except Failure BlockTable :=
  match ws.tables[t]? with
  | some table => .ok table
  | none => .error .absent

def names (ws : Workspace) (p : Nat) : Except Failure Renaming :=
  match ws.renamings[p]? with
  | some names => .ok names
  | none => .error .absent

def setStore (ws : Workspace) (m : Nat) (store : Store) : Workspace :=
  { ws with stores := ws.stores.setIfInBounds m store }

def setTable (ws : Workspace) (t : Nat) (table : BlockTable) : Workspace :=
  { ws with tables := ws.tables.setIfInBounds t table }

def setNames (ws : Workspace) (p : Nat) (names : Renaming) (next : Nat) : Workspace :=
  { ws with renamings := ws.renamings.setIfInBounds p names, nextRenaming := next }

def refuse (ws : Workspace) (failure : Failure) : Reply := ⟨.error failure, [], ws⟩

-- Goes on with what a name stands for, if it stands for anything.
def found {α : Type} (ws : Workspace) (named : Except Failure α) (next : α → Reply) : Reply :=
  match named with
  | .ok a => next a
  | .error failure => ws.refuse failure

-- A store leaves its place while it is worked on, so that it is changed and not copied.
def detach (ws : Workspace) (m : Nat) : Option Store × Workspace :=
  match ws.stores[m]? with
  | some store => (some store, { ws with stores := ws.stores.setIfInBounds m .blank })
  | none => (none, ws)

-- Runs a request on one store, and answers and reports by its result.
def onStore {α : Type} (ws : Workspace) (m : Nat) (request : Request α)
    (answer : α → Store → Workspace → Reply) : Reply :=
  match ws.detach m with
  | (some store, ws) =>
      match request store with
      | .ok a store => answer a store (ws.setStore m store)
      | .error failure store => (ws.setStore m store).refuse failure
  | (none, ws) => ws.refuse .absent

def construct (ws : Workspace) (m : Nat) (act : Action Ref) : Reply :=
  ws.onStore m (.perform act) fun f _ ws => ⟨.ok (.ref f), [], ws⟩

-- The identity is spent even when the store cannot be made.
def newStore (ws : Workspace) (config : Config) : Reply :=
  if config.capacityFits then
    let id := ws.nextStore
    let ws := { ws with nextStore := id + 1 }
    match Store.create id config with
    | .ok store =>
        ⟨.ok (.store ws.stores.size id), [.created id config],
          { ws with stores := ws.stores.push store }⟩
    | .error fault => ⟨.error (.broken fault), [.created id config], ws⟩
  else ws.refuse (.broken .capacityOverflow)

def newVars (ws : Workspace) (m n : Nat) : Reply :=
  ws.onStore m (.newVars n) fun first store ws =>
    ⟨.ok (.var first), [.grown n first store.numVars], ws⟩

def rename (ws : Workspace) (m p : Nat) (f : Ref) : Reply :=
  ws.found (ws.names p) fun names => ws.construct m (.rename names f)

def release (ws : Workspace) (m : Nat) (f : Ref) : Reply :=
  ws.onStore m (.perform (.release f)) fun _ _ ws => ⟨.ok .done, [], ws⟩

def collect (ws : Workspace) (m : Nat) : Reply :=
  ws.onStore m (.perform .collect) fun sweep _ ws =>
    ⟨.ok (.amount sweep.freed), [.collecting, .collected sweep], ws⟩

def newTable (ws : Workspace) : Reply :=
  ⟨.ok (.index ws.tables.size), [], { ws with tables := ws.tables.push .empty }⟩

def extend (ws : Workspace) (m t : Nat) (sizes : List Nat) : Reply :=
  ws.found (ws.table t) fun table =>
    ws.onStore m (table.extend sizes) fun extended store ws =>
      ⟨.ok (.index table.size), Event.ofExtension table extended store, ws.setTable t extended⟩

def overlap (ws : Workspace) (m t left right : Nat) : Reply :=
  ws.found (ws.table t) fun table =>
    ws.onStore m (table.overlap left right) fun overlapped _ ws =>
      ⟨.ok (.index table.size), Event.ofOverlap table overlapped left right,
        ws.setTable t overlapped⟩

def teardown (ws : Workspace) (m t : Nat) : Reply :=
  ws.found (ws.table t) fun table =>
    match ws.detach m with
    | (some store, ws) =>
        match table.teardown store with
        | (outcome, after, store) =>
            let ws := (ws.setStore m store).setTable t after
            match outcome with
            | .ok () => ⟨.ok .done, [.tornDown table.size], ws⟩
            | .error (.broken fault) => ⟨.error (.broken fault), [.tornDown table.size], ws⟩
            | .error failure => ws.refuse failure
    | (none, ws) => ws.refuse .absent

def encode (ws : Workspace) (m t : Nat) (encoding : Encoding) : Reply :=
  ws.found (ws.table t) fun table =>
    ws.onStore m (encoding.run table) fun f _ ws => ⟨.ok (.ref f), [], ws⟩

def addRenaming (ws : Workspace) (names : Renaming) (next : Nat) : Reply :=
  ⟨.ok (.index ws.renamings.size), [],
    { ws with renamings := ws.renamings.push names, nextRenaming := next }⟩

def newRenaming (ws : Workspace) : Reply :=
  ws.addRenaming (.empty ws.nextRenaming) (ws.nextRenaming + 1)

-- A copy keeps the identity until one of the two is changed.
def copyRenaming (ws : Workspace) (p : Nat) : Reply :=
  ws.found (ws.names p) fun names => ws.addRenaming names ws.nextRenaming

def clearRenaming (ws : Workspace) (p : Nat) : Reply :=
  ws.found (ws.names p) fun _ =>
    ⟨.ok .done, [], ws.setNames p (.empty ws.nextRenaming) (ws.nextRenaming + 1)⟩

def pair (ws : Workspace) (m p : Nat) (v w : Var) : Reply :=
  ws.found (ws.store m) fun store =>
    ws.found (ws.names p) fun names =>
      match store.checkPair v w with
      | .ok () =>
          let (names, next) := names.putAll ws.nextRenaming [(v, w)]
          ⟨.ok .done, [.paired v w], ws.setNames p names next⟩
      | .error refusal => ws.refuse (.refused refusal)

-- The pairs that a plan gives are entered even when the plan ends in a refusal.
def pairAs (ws : Workspace) (m t p : Nat)
    (plan : BlockTable → Store → List BlockPair × Except Refusal Unit) : Reply :=
  ws.found (ws.store m) fun store =>
    ws.found (ws.table t) fun table =>
      ws.found (ws.names p) fun names =>
        let (pairs, outcome) := plan table store
        let (names, next) := names.putBlocks ws.nextRenaming pairs
        let ws := ws.setNames p names next
        let events := pairs.flatMap Event.ofPair
        match outcome with
        | .ok () => ⟨.ok .done, events, ws⟩
        | .error refusal => ⟨.error (.refused refusal), events, ws⟩

def perform (ws : Workspace) : Command → Reply
  | .newStore config => ws.newStore config
  | .newVars m n => ws.newVars m n
  | .construct m construction => ws.construct m construction.run
  | .rename m p f => ws.rename m p f
  | .hold m f => ws.construct m (.hold f)
  | .release m f => ws.release m f
  | .collect m => ws.collect m
  | .newTable => ws.newTable
  | .extend m t sizes => ws.extend m t sizes
  | .overlap m t left right => ws.overlap m t left right
  | .teardown m t => ws.teardown m t
  | .encode m t encoding => ws.encode m t encoding
  | .newRenaming => ws.newRenaming
  | .copyRenaming p => ws.copyRenaming p
  | .clearRenaming p => ws.clearRenaming p
  | .pair m p v w => ws.pair m p v w
  | .pairBlocks m t p source target =>
      ws.pairAs m t p fun table store => table.planPair source target store
  | .pairAll m t p pairs => ws.pairAs m t p fun table store => table.planPairs pairs store

-- One store, one empty table and one empty renaming.
def start (config : Config) : Reply :=
  match empty.newStore config with
  | ⟨.ok answer, events, ws⟩ =>
      ⟨.ok answer, events, ws.newTable.workspace.newRenaming.workspace⟩
  | reply => reply

end Workspace

end DomainDiagram
