import DomainDiagram.OpKey
import Mathlib.Algebra.Group.Nat.Defs
import Mathlib.Data.Nat.Pairing
import Mathlib.Data.Set.Function

set_option autoImplicit false

namespace DomainDiagram

theorem pair_lt_square (a b k : Nat) : Nat.pair a b < k * k ↔ a < k ∧ b < k := by
  constructor
  · intro inside
    have least := Nat.max_sq_add_min_le_pair a b
    have less : max a b * max a b < k * k := by
      rw [← Nat.pow_two]
      exact Nat.lt_of_le_of_lt (Nat.le_of_add_right_le least) inside
    exact Nat.max_lt.mp (Nat.mul_self_lt_mul_self_iff.mp less)
  · rintro ⟨left, right⟩
    have most := Nat.pair_lt_max_add_one_sq a b
    have grown : (max a b + 1) ^ 2 ≤ k * k := by
      rw [Nat.pow_two]
      exact Nat.mul_self_le_mul_self (Nat.max_lt.mpr ⟨left, right⟩)
    exact Nat.lt_of_lt_of_le most grown

theorem square_pair_exact (a b : UInt64) (left : a.toNat < 2 ^ 32) (right : b.toNat < 2 ^ 32) :
    (squarePair a b).toNat = Nat.pair a.toNat b.toNat := by
  have fits : Nat.pair a.toNat b.toNat < 2 ^ 32 * 2 ^ 32 := (pair_lt_square _ _ _).mpr ⟨left, right⟩
  unfold Nat.pair at fits ⊢
  unfold squarePair
  by_cases less : a < b
  · have below := UInt64.lt_iff_toNat_lt.mp less
    rw [if_pos below] at fits
    rw [if_pos less, if_pos below, UInt64.toNat_add, UInt64.toNat_mul, Nat.mod_add_mod]
    exact Nat.mod_eq_of_lt fits
  · have above := mt UInt64.lt_iff_toNat_lt.mpr less
    rw [if_neg above] at fits
    rw [if_neg less, if_neg above, UInt64.toNat_add, UInt64.toNat_add, UInt64.toNat_mul, Nat.mod_add_mod,
      Nat.add_assoc, Nat.mod_add_mod, ← Nat.add_assoc]
    exact Nat.mod_eq_of_lt fits

example : squarePair 4294967295 4294967295 = 18446744073709551615 := by decide

def Halves : Set (UInt64 × UInt64) := {pair | pair.1.toNat < 2 ^ 32 ∧ pair.2.toNat < 2 ^ 32}

theorem square_pair_injective (a b c d : UInt64) (first : (a, b) ∈ Halves) (second : (c, d) ∈ Halves)
    (same : squarePair a b = squarePair c d) : a = c ∧ b = d := by
  have numbers := congrArg UInt64.toNat same
  rw [square_pair_exact a b first.1 first.2, square_pair_exact c d second.1 second.2, Nat.pair_eq_pair] at numbers
  exact ⟨UInt64.toNat_inj.mp numbers.1, UInt64.toNat_inj.mp numbers.2⟩

theorem short_half (n : Nat) (short : n < 2 ^ 16) : n < 2 ^ 32 := Nat.lt_trans short (by decide)

theorem operand_exact (n : Nat) (small : n < 2 ^ 32) : (UInt64.ofNat n).toNat = n :=
  UInt64.toNat_ofNat_of_lt' (Nat.lt_trans small (by decide))

theorem operand_injective (n k : Nat) (small : n < 2 ^ 32) (also : k < 2 ^ 32)
    (same : UInt64.ofNat n = UInt64.ofNat k) : n = k := by
  have numbers := congrArg UInt64.toNat same
  rwa [operand_exact n small, operand_exact k also] at numbers

theorem operand_half (a : UInt64) (n : Nat) (left : a.toNat < 2 ^ 32) (right : n < 2 ^ 32) :
    (a, UInt64.ofNat n) ∈ Halves := ⟨left, (operand_exact n right).symm ▸ right⟩

theorem square_pair_surjective (n : UInt64) : ∃ a b, (a, b) ∈ Halves ∧ squarePair a b = n := by
  have number : Nat.pair n.toNat.unpair.1 n.toNat.unpair.2 = n.toNat := Nat.pair_unpair n.toNat
  have fits : Nat.pair n.toNat.unpair.1 n.toNat.unpair.2 < 2 ^ 32 * 2 ^ 32 := by
    rw [number]
    exact n.toNat_lt
  obtain ⟨left, right⟩ := (pair_lt_square _ _ _).mp fits
  have exactLeft := operand_exact _ left
  have half := operand_half (.ofNat n.toNat.unpair.1) _ (exactLeft.symm ▸ left) right
  refine ⟨_, _, half, UInt64.toNat_inj.mp ?_⟩
  rw [square_pair_exact _ _ half.1 half.2, exactLeft, operand_exact _ right, number]

theorem Connective.code_injective : Function.Injective Connective.code := by
  intro op other
  cases op <;> cases other <;> decide

theorem Quantifier.code_injective : Function.Injective Quantifier.code := by
  intro q other
  cases q <;> cases other <;> decide

theorem Connective.code_apart (op : Connective) (q : Quantifier) : op.code ≠ q.code := by
  cases op <;> cases q <;> decide

theorem Connective.code_rename (op : Connective) : op.code ≠ 8 := by
  cases op <;> decide

theorem Quantifier.code_rename (q : Quantifier) : q.code ≠ 8 := by
  cases q <;> decide

namespace OpKey

inductive Asks : OpKey → UInt64 → Nat → Nat → Prop where
  | combine (op : Connective) (f g : Ref) : Asks (.combine op f g) op.code f g
  | quantify (q : Quantifier) (f set : Ref) : Asks (.quantify q f set) q.code f set
  | rename (f : Ref) (table : Nat) : Asks (.rename f table) 8 f table

theorem asks_hash (key : OpKey) (kind : UInt64) (f g : Nat) (asks : key.Asks kind f g) :
    key.hash = squareTriple kind (.ofNat f) (.ofNat g) := by
  cases asks <;> rfl

theorem asks_kind (key : OpKey) (kind : UInt64) (f g : Nat) (asks : key.Asks kind f g) : kind.toNat < 2 ^ 16 := by
  cases asks with
  | combine op => cases op <;> decide
  | quantify q => cases q <;> decide
  | rename => decide

theorem asks_unique (key other : OpKey) (kind also : UInt64) (f g h i : Nat) (asks : key.Asks kind f g)
    (otherAsks : other.Asks also h i) (same : kind = also) (first : f = h) (second : g = i) : key = other := by
  subst first second
  cases asks with
  | combine op =>
      cases otherAsks with
      | combine otherOp => rw [Connective.code_injective same]
      | quantify q => exact absurd same (op.code_apart q)
      | rename => exact absurd same op.code_rename
  | quantify q =>
      cases otherAsks with
      | combine op => exact absurd same.symm (op.code_apart q)
      | quantify otherQ => rw [Quantifier.code_injective same]
      | rename => exact absurd same q.code_rename
  | rename =>
      cases otherAsks with
      | combine op => exact absurd same.symm op.code_rename
      | quantify q => exact absurd same.symm q.code_rename
      | rename => rfl

def Narrow : OpKey → Prop
  | .combine _ f g | .quantify _ f g | .rename f g => f < 2 ^ 16 ∧ g < 2 ^ 32
  | .negate _ | .choose _ _ _ => False

theorem narrow_asks (key : OpKey) (narrow : key.Narrow) :
    ∃ kind f g, key.Asks kind f g ∧ f < 2 ^ 16 ∧ g < 2 ^ 32 := by
  cases key with
  | combine op f g => exact ⟨_, f, g, .combine op f g, narrow⟩
  | quantify q f set => exact ⟨_, f, set, .quantify q f set, narrow⟩
  | rename f table => exact ⟨_, f, table, .rename f table, narrow⟩
  | negate _ => exact narrow.elim
  | choose _ _ _ => exact narrow.elim

end OpKey

-- The inner number stays below 2^32 while its operands stay below 2^16.
theorem square_inner (kind : UInt64) (f : Nat) (few : kind.toNat < 2 ^ 16) (small : f < 2 ^ 16) :
    (kind, UInt64.ofNat f) ∈ Halves ∧ (squarePair kind (.ofNat f)).toNat < 2 ^ 32 := by
  have half := operand_half kind f (short_half _ few) (short_half f small)
  refine ⟨half, ?_⟩
  rw [square_pair_exact _ _ half.1 half.2, operand_exact f (short_half f small)]
  exact (pair_lt_square _ _ (2 ^ 16)).mpr ⟨few, small⟩

theorem square_triple_injective (kind other : UInt64) (f g h i : Nat) (few : kind.toNat < 2 ^ 16)
    (also : other.toNat < 2 ^ 16) (first : f < 2 ^ 16 ∧ g < 2 ^ 32) (second : h < 2 ^ 16 ∧ i < 2 ^ 32)
    (same : squareTriple kind (.ofNat f) (.ofNat g) = squareTriple other (.ofNat h) (.ofNat i)) :
    kind = other ∧ f = h ∧ g = i := by
  obtain ⟨left, leftSmall⟩ := square_inner kind f few first.1
  obtain ⟨right, rightSmall⟩ := square_inner other h also second.1
  obtain ⟨inner, last⟩ := square_pair_injective _ _ _ _ (operand_half _ g leftSmall first.2)
    (operand_half _ i rightSmall second.2) same
  obtain ⟨kinds, operands⟩ := square_pair_injective _ _ _ _ left right inner
  exact ⟨kinds, operand_injective f h (short_half f first.1) (short_half h second.1) operands,
    operand_injective g i first.2 second.2 last⟩

theorem narrow_separate : Set.InjOn OpKey.hash {key | key.Narrow} := by
  intro key narrow other also same
  obtain ⟨kind, f, g, asks, first⟩ := OpKey.narrow_asks key narrow
  obtain ⟨otherKind, h, i, otherAsks, second⟩ := OpKey.narrow_asks other also
  rw [OpKey.asks_hash key kind f g asks, OpKey.asks_hash other otherKind h i otherAsks] at same
  obtain ⟨kinds, fs, gs⟩ := square_triple_injective kind otherKind f g h i (key.asks_kind kind f g asks)
    (other.asks_kind otherKind h i otherAsks) first second same
  exact OpKey.asks_unique key other kind otherKind f g h i asks otherAsks kinds fs gs

theorem negations_separate : Set.InjOn OpKey.hash {key | ∃ f < 2 ^ 32, key = .negate f} := by
  rintro key ⟨f, small, rfl⟩ other ⟨g, also, rfl⟩ same
  have four : (4 : UInt64).toNat < 2 ^ 32 := by decide
  have operands := (square_pair_injective _ _ _ _ (operand_half 4 f four small) (operand_half 4 g four also) same).2
  rw [operand_injective f g small also operands]

theorem OpKey.hash_separates :
    (∀ a b : UInt64, (a, b) ∈ Halves → (squarePair a b).toNat = Nat.pair a.toNat b.toNat) ∧
    Set.BijOn (fun pair => squarePair pair.1 pair.2) Halves Set.univ ∧
    Set.InjOn OpKey.hash {key | key.Narrow} ∧ Set.InjOn OpKey.hash {key | ∃ f < 2 ^ 32, key = .negate f} := by
  have injective : Set.InjOn (fun pair : UInt64 × UInt64 => squarePair pair.1 pair.2) Halves := by
    rintro ⟨a, b⟩ first ⟨c, d⟩ second same
    obtain ⟨left, right⟩ := square_pair_injective a b c d first second same
    rw [left, right]
  have surjective : Set.SurjOn (fun pair : UInt64 × UInt64 => squarePair pair.1 pair.2) Halves Set.univ := by
    intro n _
    obtain ⟨a, b, half, number⟩ := square_pair_surjective n
    exact ⟨(a, b), half, number⟩
  exact ⟨fun a b half => square_pair_exact a b half.1 half.2, ⟨fun _ _ => Set.mem_univ _, injective, surjective⟩,
    narrow_separate, negations_separate⟩

end DomainDiagram
