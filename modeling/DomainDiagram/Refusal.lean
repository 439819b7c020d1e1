set_option autoImplicit false

namespace DomainDiagram

inductive Measure where
  | size
  | bitWidth
deriving DecidableEq

-- Why a request was turned down before anything was changed.
inductive Refusal where
  | foreignStore (expected actual : Nat)
  | noBlock (index count : Nat)
  | noVariable (var count : Nat)
  | emptyBlock (size : Nat)
  | valueTooLarge (block value size : Nat)
  | sizeOverflow (left right : Nat)
  | mismatch (measure : Measure) (left right leftValue rightValue : Nat)
  | outOfVariables (requested available : Nat)
  | sinkFull
deriving DecidableEq

inductive Refusal.Kind where
  | state
  | index
  | range
  | mismatch
  | memory
  | format
deriving DecidableEq

namespace Measure

def text : Measure → String
  | .size => "size"
  | .bitWidth => "bit width"

end Measure

namespace Refusal

def kind : Refusal → Kind
  | .foreignStore .. => .state
  | .noBlock .. | .noVariable .. => .index
  | .emptyBlock .. | .valueTooLarge .. | .sizeOverflow .. => .range
  | .mismatch .. => .mismatch
  | .outOfVariables .. => .memory
  | .sinkFull => .format

def Kind.text : Kind → String
  | .state => "state error"
  | .index => "index error"
  | .range => "range error"
  | .mismatch => "range mismatch"
  | .memory => "memory error"
  | .format => "format error"

def message : Refusal → String
  | .foreignStore expected actual =>
      s!"domain table is bound to BDD manager #{expected}, but was used with manager #{actual}"
  | .noBlock index count => s!"block index {index} is out of range: {count} blocks defined"
  | .noVariable var count => s!"variable {var} is out of range: {count} variables allocated"
  | .emptyBlock size => s!"domain size must be positive, got {size}"
  | .valueTooLarge block value size =>
      s!"value {value} is out of range for block {block} of size {size}"
  | .sizeOverflow left right =>
      s!"combined size of blocks {left} and {right} does not fit in 64 bits"
  | .mismatch measure left right leftValue rightValue =>
      s!"blocks {left} and {right} differ in {measure.text}: {leftValue} vs {rightValue}"
  | .outOfVariables requested available =>
      s!"cannot allocate {requested} more variables: only {available} left"
  | .sinkFull => "output sink failed: an error occurred when formatting an argument"

end Refusal

end DomainDiagram
