import DomainDiagram.Proofs.Counting
import DomainDiagram.Block

set_option autoImplicit false

namespace DomainDiagram

def spelt : List Var → (Var → Bool) → Nat
  | [], _ => 0
  | v :: rest, env => (env v).toNat + 2 * spelt rest env

def Block.code (block : Block) (env : Var → Bool) : Nat := spelt block.bits env

theorem spelt_agree (bits : List Var) (env other : Var → Bool) (agree : ∀ v ∈ bits, env v = other v) :
    spelt bits env = spelt bits other := by
  induction bits with
  | nil => rfl
  | cons v rest ih =>
      rw [spelt, spelt, agree v List.mem_cons_self, ih fun w member => agree w (List.mem_cons_of_mem v member)]

theorem spelt_map (bits : List Var) (image : Var → Var) (env : Var → Bool) :
    spelt bits (fun v => env (image v)) = spelt (bits.map image) env := by
  induction bits with
  | nil => rfl
  | cons v rest ih => rw [List.map_cons, spelt, spelt, ih]

theorem spelt_lt (bits : List Var) (env : Var → Bool) : spelt bits env < 2 ^ bits.length := by
  induction bits with
  | nil => exact Nat.one_pos
  | cons v rest ih =>
      have bit := Bool.toNat_le (env v)
      rw [spelt, List.length_cons, Nat.pow_succ']
      lia

theorem Block.code_lt (block : Block) (env : Var → Bool) : block.code env < 2 ^ block.width := by
  have width : block.bits.length = block.width := List.length_reverse
  exact width ▸ spelt_lt block.bits env

theorem spelt_alike (bits others : List Var) (same : bits.length = others.length) (env : Var → Bool) :
    ((bits.zip others).all fun (v, w) => env v == env w) = decide (spelt bits env = spelt others env) := by
  induction bits generalizing others with
  | nil =>
      cases others with
      | nil => rfl
      | cons w more => exact nomatch same
  | cons v rest ih =>
      cases others with
      | nil => exact nomatch same
      | cons w more =>
          have left := Bool.toNat_le (env v)
          have right := Bool.toNat_le (env w)
          have injective : ∀ a b : Bool, a.toNat = b.toNat → a = b := by decide
          rw [List.zip_cons_cons, List.all_cons, ih more (Nat.succ.inj same), Bool.eq_iff_iff, Bool.and_eq_true,
            beq_iff_eq, decide_eq_true_eq, decide_eq_true_eq, spelt, spelt]
          constructor
          · rintro ⟨bit, others⟩
            rw [bit, others]
          · intro alike
            exact ⟨injective _ _ (by lia), by lia⟩

theorem spelt_append (bits more : List Var) (env : Var → Bool) :
    spelt (bits ++ more) env = spelt bits env + 2 ^ bits.length * spelt more env := by
  induction bits with
  | nil => rw [List.nil_append, spelt, List.length_nil, Nat.pow_zero, Nat.one_mul, Nat.zero_add]
  | cons v rest ih =>
      rw [List.cons_append, spelt, spelt, ih, List.length_cons, Nat.pow_succ', Nat.mul_add, Nat.mul_assoc,
        Nat.add_assoc]

theorem odd_bit (n : Nat) : (n % 2 == 1).toNat = n % 2 := by
  rcases Nat.mod_two_eq_zero_or_one n with even | odd
  · rw [even]
    rfl
  · rw [odd]
    rfl

theorem spelt_cons (v : Var) (rest : List Var) (env : Var → Bool) (n : Nat) :
    spelt (v :: rest) env = n % 2 ^ (v :: rest).length ↔
      env v = (n % 2 == 1) ∧ spelt rest env = n / 2 % 2 ^ rest.length := by
  have half : n % 2 ^ (v :: rest).length = n % 2 + 2 * (n / 2 % 2 ^ rest.length) := by
    rw [List.length_cons, Nat.pow_succ', Nat.mod_mul]
  have bits := Bool.toNat_le (env v)
  have odd := odd_bit n
  have injective : ∀ a b : Bool, a.toNat = b.toNat → a = b := by decide
  rw [half, spelt]
  constructor
  · intro same
    exact ⟨injective _ _ (by lia), by lia⟩
  · rintro ⟨bit, others⟩
    rw [bit, others, odd]

theorem spelt_cons_lt (v : Var) (rest : List Var) (env : Var → Bool) (n : Nat) :
    spelt (v :: rest) env < n % 2 ^ (v :: rest).length ↔ spelt rest env < n / 2 % 2 ^ rest.length ∨
      (spelt rest env = n / 2 % 2 ^ rest.length ∧ env v = false ∧ n % 2 = 1) := by
  have half : n % 2 ^ (v :: rest).length = n % 2 + 2 * (n / 2 % 2 ^ rest.length) := by
    rw [List.length_cons, Nat.pow_succ', Nat.mod_mul]
  have small := Nat.mod_lt n Nat.two_pos
  rw [half, spelt]
  cases env v with
  | true => simp only [Bool.toNat_true]; lia
  | false => simp only [Bool.toNat_false]; lia

theorem spelt_at_most (v : Var) (rest : List Var) (env : Var → Bool) (n : Nat) (below : Bool) :
    (decide (spelt (v :: rest) env < n % 2 ^ (v :: rest).length) ||
        (decide (spelt (v :: rest) env = n % 2 ^ (v :: rest).length) && below)) =
      (decide (spelt rest env < n / 2 % 2 ^ rest.length) || (decide (spelt rest env = n / 2 % 2 ^ rest.length) &&
        (if n % 2 == 1 then Connective.or else .and).eval (env v == false) below)) := by
  rw [Bool.eq_iff_iff]
  simp only [Bool.or_eq_true, Bool.and_eq_true, decide_eq_true_eq, spelt_cons, spelt_cons_lt]
  rcases Nat.mod_two_eq_zero_or_one n with even | odd
  · cases bit : env v <;> simp [even, Connective.eval]
  · cases bit : env v <;> simp [odd, Connective.eval]

theorem spelt_onto (bits : List Var) (once : bits.Nodup) (env : Var → Bool) (n : Nat)
    (fits : n < 2 ^ bits.length) :
    ∃ other : Var → Bool, (∀ w, w ∉ bits → other w = env w) ∧ spelt bits other = n := by
  induction bits generalizing n with
  | nil => exact ⟨env, fun _ _ => rfl, (Nat.lt_one_iff.mp fits).symm⟩
  | cons v rest ih =>
      obtain ⟨fresh, later⟩ := List.nodup_cons.mp once
      rw [List.length_cons, Nat.pow_succ] at fits
      obtain ⟨other, agree, value⟩ := ih later (n / 2) (by lia)
      refine ⟨Function.update other v (n % 2 == 1), fun w outside => ?_, ?_⟩
      · have parts : w ≠ v ∧ w ∉ rest := by simpa using outside
        rw [Function.update_of_ne parts.1, agree w parts.2]
      · have kept : spelt rest (Function.update other v (n % 2 == 1)) = n / 2 := by
          rw [← value]
          refine spelt_agree rest _ _ fun w member => Function.update_of_ne ?_ _ _
          exact fun same => fresh (same ▸ member)
        rw [spelt, Function.update_self, kept, odd_bit, Nat.mod_add_div]

theorem count_halves (p : Nat → Bool) (n : Nat) : (List.range (2 * n)).countP p =
    (List.range n).countP (fun k => p (2 * k)) + (List.range n).countP fun k => p (1 + 2 * k) := by
  induction n with
  | zero => rfl
  | succ n ih =>
      have twice : 2 * (n + 1) = 2 * n + 1 + 1 := by omega
      rw [twice, List.range_succ, List.range_succ, List.range_succ]
      simp only [List.countP_append, ih, List.countP_singleton, Nat.add_comm 1]
      omega

theorem ways_spelt (bits : List Var) (once : bits.Nodup) (p : Nat → Bool) (env : Var → Bool) :
    ways bits (fun other => p (spelt bits other)) env = (List.range (2 ^ bits.length)).countP p := by
  induction bits generalizing p env with
  | nil =>
      rw [ways, spelt, List.length_nil, Nat.pow_zero, List.range_one, List.countP_singleton]
      cases p 0 <;> rfl
  | cons v rest ih =>
      obtain ⟨fresh, later⟩ := List.nodup_cons.mp once
      have fixed : ∀ value : Bool, ways rest (fun other => p (spelt (v :: rest) other))
          (Function.update env v value) = (List.range (2 ^ rest.length)).countP fun k => p (value.toNat + 2 * k) := by
        intro value
        rw [← ih later (fun k => p (value.toNat + 2 * k)) (Function.update env v value)]
        refine ways_agree rest _ _ _ fun other agree => ?_
        rw [spelt, agree v fresh, Function.update_self]
      rw [ways, fixed, fixed, List.length_cons, Nat.pow_succ', count_halves]
      simp only [Bool.toNat_false, Bool.toNat_true, Nat.zero_add]

theorem count_listed (targets : List Nat) (once : targets.Nodup) (bound : Nat)
    (inside : ∀ j ∈ targets, j < bound) :
    (List.range bound).countP (fun k => decide (k ∈ targets)) = targets.length := by
  rw [List.countP_eq_length_filter]
  refine List.Perm.length_eq ((List.perm_ext_iff_of_nodup (List.nodup_range.filter _) once).mpr fun k => ?_)
  rw [List.mem_filter, List.mem_range, decide_eq_true_eq]
  exact and_iff_right_of_imp (inside k)

end DomainDiagram
