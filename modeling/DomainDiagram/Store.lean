import DomainDiagram.Level
import DomainDiagram.Memo
import DomainDiagram.Refusal

set_option autoImplicit false

namespace DomainDiagram

structure Config where
  capacity : Nat := 65536
  cacheBits : Nat := 14
  maxVars : Nat := 2097151
deriving DecidableEq

namespace Config

-- The arena is asked for at once, 12 bytes a node, and no request reaches 2^63 bytes.
def capacityFits (config : Config) : Bool := decide (max config.capacity 2 * 12 < 1 <<< 63)

def text (config : Config) : String :=
  s!"BddConfig \x7b capacity: {config.capacity}, cache_bits: {config.cacheBits}, " ++
    s!"max_vars: {config.maxVars} \x7d"

end Config

-- A slot of the arena: given back, or in use by a node.
inductive Slot where
  | free
  | live (node : Node)
deriving DecidableEq

-- The holds on a node are counted beside the arena, at the node's index. The
-- level of variable v is at position v - 1. The free slots are listed with
-- the one to be used next at the head.
structure Store where
  id : Nat
  config : Config
  arena : Array Slot
  counts : Array Nat
  free : List Ref
  levels : Array Level
  numVars : Nat
  memo : Memo

-- An action that breaks off leaves the store as far as it had come.
abbrev Action := EStateM Fault Store

namespace Store

def blank : Store := ⟨0, {}, #[], #[], [], #[], 0, .empty 0⟩

def create (id : Nat) (config : Config) : Except Fault Store :=
  match Memo.create config.cacheBits with
  | .ok memo =>
      .ok ⟨id, config, #[.live Node.terminal, .live Node.terminal], #[0, 0], [], #[], 0, memo⟩
  | .error fault => .error fault

-- Decision nodes in use; the two terminals do not count.
def numNodes (store : Store) : Nat := store.arena.size - 2 - store.free.length

def describe (store : Store) : String :=
  s!"Bdd \x7b id: {store.id}, num_vars: {store.numVars}, num_nodes: {store.numNodes}, " ++
    s!"arena: {store.arena.size}, cache: {store.memo.size} \x7d"

def node (store : Store) (f : Ref) : Except Fault Node :=
  match store.arena[f]? with
  | some (.live node) => .ok node
  | some .free => .error (.reclaimed f)
  | none => .error (.outsideArena f)

def varOf (store : Store) (f : Ref) : Except Fault Var :=
  if f.isTerminal then .error (.noVariable f)
  else
    match store.node f with
    | .ok node => .ok node.var
    | .error fault => .error fault

def topVar (store : Store) (f : Ref) : Except Fault (Option Var) :=
  if f.isTerminal then .ok none
  else
    match store.node f with
    | .ok node => .ok (some node.var)
    | .error fault => .error fault

-- Terminals stand below every variable.
def depth (store : Store) (f : Ref) : Except Fault Nat :=
  if f.isTerminal then .ok (store.numVars + 1) else store.varOf f

-- The two halves of f at a variable not below its root.
def cofactors (store : Store) (f : Ref) (v : Var) : Except Fault (Ref × Ref) :=
  if f.isTerminal then .ok (f, f)
  else
    match store.node f with
    | .ok node =>
        if v < node.var then .ok (f, f)
        else if v = node.var then .ok (node.low, node.high)
        else .error (.belowRoot v)
    | .error fault => .error fault

def count (store : Store) (f : Ref) : Except Fault Nat :=
  if f.isTerminal then .ok 0
  else
    match store.counts[f]? with
    | some count => .ok count
    | none => .error (.outsideArena f)

def checkVar (store : Store) (v : Var) : Except Refusal Unit :=
  if store.numVars < v then .error (.noVariable v store.numVars) else .ok ()

-- The variable that a request for n variables starts at. It exists even for
-- n = 0, unless every number is taken.
def nextVar (store : Store) (n : Nat) : Except Refusal Var :=
  let available := store.config.maxVars - store.numVars
  if store.numVars + 1 < Var.bound ∧ n ≤ available then .ok (store.numVars + 1)
  else .error (.outOfVariables n available)

-- Appends n variables below the existing ones.
def grow (store : Store) (n : Nat) : Store :=
  { store with
    levels := n.fold (fun i _ levels => levels.push (.empty (store.numVars + 1 + i))) store.levels
    numVars := store.numVars + n }

end Store

namespace Action

@[inline] def inspect {α : Type} (look : Store → Except Fault α) : Action α := fun store =>
  match look store with
  | .ok a => .ok a store
  | .error fault => .error fault store

def consult (key : OpKey) : Action (Option Ref) := fun store =>
  match store.memo.consult key with
  | (found, memo) => .ok found { store with memo := memo }

def remember (key : OpKey) (result : Ref) : Action Unit := fun store =>
  .ok () { store with memo := store.memo.insert key result }

-- Takes the result from the table if it is there, and else works it out.
@[inline] def memoized (key : OpKey) (work : Action Ref) : Action Ref := do
  match ← consult key with
  | some result => return result
  | none =>
      let result ← work
      remember key result
      return result

end Action

end DomainDiagram
