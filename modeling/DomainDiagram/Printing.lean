import DomainDiagram.BlockTable

set_option autoImplicit false

namespace DomainDiagram

-- The choices that lead to a node, the latest first.
abbrev Path := List (Var × Bool)

namespace Block

-- The bits that the path decides, with their weights.
def fixedBits (block : Block) (path : Path) : List (Nat × Bool) :=
  block.bits.zipIdx.filterMap fun (v, i) => (path.lookup v).map (i, ·)

def agrees (fixed : List (Nat × Bool)) (value : Nat) : Bool :=
  fixed.all fun (i, bit) => value.testBit i == bit

end Block

namespace BlockTable

-- The blocks that the path says something about, with the values it leaves them.
def group (table : BlockTable) (path : Path) : List (Nat × List Nat) :=
  table.blocks.toList.filterMap fun block =>
    match block.fixedBits path with
    | [] => none
    | fixed => some (block.index, (List.range block.size).filter (Block.agrees fixed))

end BlockTable

def entryText : Nat × List Nat → String
  | (k, values) => toString k ++ ":" ++ "/".intercalate (values.map toString)

def groupText (group : List (Nat × List Nat)) : String :=
  "<" ++ ", ".intercalate (group.map entryText) ++ ">"

-- A sink answers each text with whether it took it. The groups offered so far
-- are listed with the latest first.
structure Printout (σ : Type) where
  sink : σ
  offered : List String

namespace Printout

def offer {σ : Type} (write : σ → String → Bool × σ) (text : String) :
    EStateM Failure (Printout σ) Unit := fun ⟨sink, offered⟩ =>
  match write sink text with
  | (true, sink) => .ok () ⟨sink, offered⟩
  | (false, sink) => .error (.refused .sinkFull) ⟨sink, offered⟩

def offerGroup {σ : Type} (write : σ → String → Bool × σ) (text : String) :
    EStateM Failure (Printout σ) Unit := fun ⟨sink, offered⟩ =>
  offer write text ⟨sink, text :: offered⟩

end Printout

namespace BlockTable

-- The paths to true are visited with "false" before "true" at every node.
def printFrom {σ : Type} (table : BlockTable) (store : Store) (write : σ → String → Bool × σ) :
    Nat → Ref → Path → EStateM Failure (Printout σ) Unit
  | 0, _, _ => throw (.broken .endlessPath)
  | steps + 1, f, path =>
      if f.isZero then return ()
      else if f.isOne then Printout.offerGroup write (groupText (table.group path))
      else
        match store.node f with
        | .error fault => throw (.broken fault)
        | .ok node => do
            table.printFrom store write steps node.low ((node.var, false) :: path)
            table.printFrom store write steps node.high ((node.var, true) :: path)

-- Writes one group for each path to true. Constants are written T and F.
def print {σ : Type} (table : BlockTable) (store : Store) (write : σ → String → Bool × σ)
    (f : Ref) : EStateM Failure (Printout σ) Unit :=
  match table.checkOwner store with
  | .error refusal => throw (.refused refusal)
  | .ok () =>
      if f.isTerminal then Printout.offer write (if f.isZero then "F" else "T")
      else table.printFrom store write store.steps f []

end BlockTable

-- A text that may grow to so many bytes.
structure BoundedText where
  text : String
  limit : Nat
deriving DecidableEq

namespace BoundedText

def write : BoundedText → String → Bool × BoundedText
  | ⟨text, limit⟩, added =>
      if text.utf8ByteSize + added.utf8ByteSize ≤ limit then (true, ⟨text ++ added, limit⟩)
      else (false, ⟨text, limit⟩)

end BoundedText

-- A text without a bound takes everything.
def writeText (text added : String) : Bool × String := (true, text ++ added)

end DomainDiagram
