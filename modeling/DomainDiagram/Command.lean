import DomainDiagram.Construction
import DomainDiagram.Encoding

set_option autoImplicit false

namespace DomainDiagram

-- Everything that changes a workspace. The letters m, t and p name a store,
-- a table and a renaming.
inductive Command where
  | newStore (config : Config)
  | newVars (m n : Nat)
  | construct (m : Nat) (construction : Construction)
  | rename (m p : Nat) (f : Ref)
  | hold (m : Nat) (f : Ref)
  | release (m : Nat) (f : Ref)
  | collect (m : Nat)
  | newTable
  | extend (m t : Nat) (sizes : List Nat)
  | overlap (m t left right : Nat)
  | teardown (m t : Nat)
  | encode (m t : Nat) (encoding : Encoding)
  | newRenaming
  | copyRenaming (p : Nat)
  | clearRenaming (p : Nat)
  | pair (m p : Nat) (v w : Var)
  | pairBlocks (m t p source target : Nat)
  | pairAll (m t p : Nat) (pairs : List (Nat × Nat))
deriving DecidableEq

inductive Answer where
  | done
  | ref (f : Ref)
  | var (v : Var)
  | index (i : Nat)
  | amount (n : Nat)
  | store (index id : Nat)
deriving DecidableEq

end DomainDiagram
