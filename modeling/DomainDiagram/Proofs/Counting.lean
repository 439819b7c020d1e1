import DomainDiagram.Proofs.Branching
import DomainDiagram.Proofs.Quantified
import DomainDiagram.Models
import Mathlib.Algebra.Group.Nat.Defs
import Mathlib.Data.List.Nodup
import Mathlib.Data.Set.Card

set_option autoImplicit false

namespace DomainDiagram

theorem list_encard {α : Type} [DecidableEq α] (items : List α) (once : items.Nodup) :
    {a | a ∈ items}.encard = items.length := by
  rw [← List.coe_toFinset, Set.encard_coe_eq_coe_finsetCard, List.toFinset_card_of_nodup once]

def ways : List Var → ((Var → Bool) → Bool) → (Var → Bool) → Nat
  | [], fn, env => (fn env).toNat
  | v :: rest, fn, env => ways rest fn (Function.update env v false) + ways rest fn (Function.update env v true)

theorem ways_agree (vars : List Var) (fn gn : (Var → Bool) → Bool) (env : Var → Bool)
    (same : ∀ other : Var → Bool, (∀ w, w ∉ vars → other w = env w) → fn other = gn other) :
    ways vars fn env = ways vars gn env := by
  induction vars generalizing env with
  | nil => rw [ways, ways, same env fun _ _ => rfl]
  | cons v rest ih =>
      have chosen : ∀ value, ways rest fn (Function.update env v value) =
          ways rest gn (Function.update env v value) := by
        intro value
        refine ih _ fun other agree => same other fun w fresh => ?_
        have parts : w ≠ v ∧ w ∉ rest := by simpa using fresh
        rw [agree w parts.2, Function.update_of_ne parts.1]
      rw [ways, ways, chosen false, chosen true]

theorem ways_unread (vars : List Var) (fn : (Var → Bool) → Bool) (v : Var)
    (free : ∀ env value, fn (Function.update env v value) = fn env) (env : Var → Bool) (value : Bool) :
    ways vars fn (Function.update env v value) = ways vars fn env := by
  induction vars generalizing env with
  | nil => rw [ways, ways, free]
  | cons w rest ih =>
      by_cases same : w = v
      · subst same
        rw [ways, ways, Function.update_idem, Function.update_idem]
      · rw [ways, ways, Function.update_comm (Ne.symm same), Function.update_comm (Ne.symm same), ih, ih]

theorem ways_perm (vars other : List Var) (perm : vars.Perm other) (fn : (Var → Bool) → Bool)
    (env : Var → Bool) : ways vars fn env = ways other fn env := by
  induction perm generalizing env with
  | nil => rfl
  | cons v _ ih => rw [ways, ways, ih, ih]
  | swap v w rest =>
      by_cases same : v = w
      · rw [same]
      · simp only [ways, Function.update_comm same]
        omega
  | trans _ _ first second => rw [first, second]

theorem ways_free (extra vars : List Var) (fn : (Var → Bool) → Bool)
    (free : ∀ v ∈ extra, ∀ env value, fn (Function.update env v value) = fn env) (env : Var → Bool) :
    ways (extra ++ vars) fn env = 2 ^ extra.length * ways vars fn env := by
  induction extra generalizing env with
  | nil => rw [List.nil_append, List.length_nil, Nat.pow_zero, Nat.one_mul]
  | cons v rest ih =>
      have later : ∀ w ∈ rest, ∀ env value, fn (Function.update env w value) = fn env :=
        fun w member => free w (List.mem_cons_of_mem v member)
      have first := free v List.mem_cons_self
      rw [List.cons_append, ways, ih later, ih later, ways_unread vars fn v first, ways_unread vars fn v first,
        List.length_cons, Nat.pow_succ]
      lia

-- A decision is true as often as its halves are on the average.
theorem ways_decision (vars : List Var) (once : vars.Nodup) (v : Var) (member : v ∈ vars)
    (fn low high : (Var → Bool) → Bool) (decides : ∀ env, fn env = if env v then high env else low env)
    (lowFree : ∀ env value, low (Function.update env v value) = low env)
    (highFree : ∀ env value, high (Function.update env v value) = high env) (env : Var → Bool) :
    ways vars low env + ways vars high env = 2 * ways vars fn env := by
  have perm := List.perm_cons_erase member
  have fresh : v ∉ vars.erase v := List.Nodup.not_mem_erase once
  have fixed : ∀ value, ways (vars.erase v) fn (Function.update env v value) =
      ways (vars.erase v) (if value then high else low) env := by
    intro value
    have half : ways (vars.erase v) fn (Function.update env v value) =
        ways (vars.erase v) (if value then high else low) (Function.update env v value) := by
      refine ways_agree _ _ _ _ fun other agree => ?_
      rw [decides, agree v fresh, Function.update_self]
      cases value <;> rfl
    rw [half]
    cases value with
    | false => exact ways_unread _ low v lowFree env false
    | true => exact ways_unread _ high v highFree env true
  have whole : ways (v :: vars.erase v) fn env = ways (vars.erase v) low env + ways (vars.erase v) high env := by
    rw [ways, fixed, fixed]
    rfl
  rw [ways_perm vars _ perm fn, ways_perm vars _ perm low, ways_perm vars _ perm high, whole, ways, ways,
    ways_unread _ low v lowFree, ways_unread _ low v lowFree, ways_unread _ high v highFree,
    ways_unread _ high v highFree]
  lia

theorem ways_always (vars : List Var) (env : Var → Bool) : ways vars (fun _ => true) env = 2 ^ vars.length := by
  have free := ways_free vars [] (fun _ => true) (fun _ _ _ _ => rfl) env
  rwa [List.append_nil, ways, Bool.toNat_true, Nat.mul_one] at free

theorem ways_never (vars : List Var) (env : Var → Bool) : ways vars (fun _ => false) env = 0 := by
  have free := ways_free vars [] (fun _ => false) (fun _ _ _ _ => rfl) env
  rwa [List.append_nil, ways, Bool.toNat_false, Nat.mul_zero] at free

namespace Store

def allVars (store : Store) : List Var := List.range' 1 store.numVars

theorem all_vars_mem (store : Store) (v : Var) : v ∈ store.allVars ↔ 0 < v ∧ v ≤ store.numVars := by
  rw [allVars, List.mem_range'_1]
  lia

-- The values of variables that are not allocated play no part.
def weight (store : Store) (env : Var → Bool) (f : Ref) : Nat := ways store.allVars (store.eval f) env

theorem weight_zero (store : Store) (env : Var → Bool) : store.weight env 0 = 0 := by
  have none : store.eval 0 = fun _ => false := funext store.eval_zero
  rw [weight, none, ways_never]

theorem weight_one (store : Store) (env : Var → Bool) : store.weight env 1 = 1 <<< store.numVars := by
  have all : store.eval 1 = fun _ => true := funext store.eval_one
  rw [weight, all, ways_always, allVars, List.length_range', Nat.one_shiftLeft]

theorem weight_even (store : Store) (sound : store.Sound) (env : Var → Bool) (f : Ref) (node : Node)
    (tests : store.Tests f node) :
    store.weight env node.low + store.weight env node.high = 2 * store.weight env f := by
  obtain ⟨lowBelow, highBelow⟩ := sound.ordered f node tests
  exact ways_decision store.allVars (List.nodup_range' 1) node.var
    ((all_vars_mem store node.var).mpr (sound.allocated f node tests)) (store.eval f) (store.eval node.low)
    (store.eval node.high) (fun env => eval_tests store sound env f node tests)
    (fun env value => eval_update store sound env node.var value node.low lowBelow)
    (fun env value => eval_update store sound env node.var value node.high highBelow) env

theorem weight_tests (store : Store) (sound : store.Sound) (env : Var → Bool) (f : Ref) (node : Node)
    (tests : store.Tests f node) :
    (store.weight env node.low + store.weight env node.high) / 2 = store.weight env f := by
  rw [weight_even store sound env f node tests, Nat.mul_div_cancel_left _ Nat.two_pos]

theorem models_from_ok (store : Store) (sound : store.Sound) (env : Var → Bool) (steps : Nat) (f : Ref)
    (v : Var) (counts : Counts) (right : ∀ g count, counts[g]? = some count → count = store.weight env g)
    (enough : store.Suffices v steps) (below : store.Below v f) :
    ∃ later, store.modelsFrom (1 <<< store.numVars) steps f counts = .ok (store.weight env f, later) ∧
      ∀ (g : Ref) (count : Nat), later[g]? = some count → count = store.weight env g := by
  induction steps generalizing f v counts with
  | zero => exact absurd enough (suffices_none store v)
  | succ steps ih =>
      rcases below with small | ⟨node, tests, less⟩
      · refine ⟨counts, ?_, right⟩
        rcases Ref.terminal_cases f small with rfl | rfl
        · rw [weight_zero]
          rfl
        · rw [weight_one]
          rfl
      · have decision : f.isZero = false ∧ f.isOne = false := by
          have large := tests.1
          simp only [Ref.isZero, Ref.isOne, beq_eq_false_iff_ne]
          lia
        cases known : counts[f]? with
        | some count =>
            refine ⟨counts, ?_, right⟩
            rw [modelsFrom, decision.1, decision.2, known, right f count known]
            rfl
        | none =>
            have bound := (sound.allocated f node tests).2
            have fewer : store.Suffices node.var steps := ⟨bound, by have := enough.2; lia⟩
            obtain ⟨lowBelow, highBelow⟩ := sound.ordered f node tests
            obtain ⟨middle, lowDone, middleRight⟩ := ih node.low node.var counts right fewer lowBelow
            obtain ⟨later, highDone, laterRight⟩ := ih node.high node.var middle middleRight fewer highBelow
            refine ⟨later.insert f (store.weight env f), ?_, fun g count found => ?_⟩
            · simp only [modelsFrom, decision, known, node_tests store f node tests, lowDone, highDone, bind,
                Except.bind, pure, Except.pure, weight_tests store sound env f node tests, Bool.false_eq_true,
                if_false]
            · rw [Std.TreeMap.getElem?_insert] at found
              split at found
              · next same =>
                  rw [Std.LawfulEqCmp.compare_eq_iff_eq] at same
                  exact same ▸ (Option.some.inj found).symm
              · exact laterRight g count found

theorem models_ok (store : Store) (sound : store.Sound) (f : Ref) (live : store.Live f) (env : Var → Bool) :
    store.models f = .ok (store.weight env f) := by
  have none : ∀ (g : Ref) (count : Nat), (∅ : Counts)[g]? = some count → count = store.weight env g := by
    intro g count found
    rw [Std.TreeMap.getElem?_emptyc] at found
    exact nomatch found
  have enough : store.Suffices 0 store.steps := ⟨Nat.zero_le _, by simp only [steps]; omega⟩
  obtain ⟨later, done, _⟩ := models_from_ok store sound env store.steps f 0 ∅ none enough
    (live_below store sound f live)
  rw [models, done]
  rfl

theorem members_ascending (store : Store) (sound : store.Sound) (set : Ref) (vars : List Var)
    (members : store.Members set vars) : vars.Pairwise (· < ·) ∧ ∀ v ∈ vars, v ∈ store.allVars := by
  induction members with
  | nil => exact ⟨.nil, nofun⟩
  | cons set node rest tests later ih =>
      have less := members_below store sound node.var node.high rest (sound.ordered set node tests).2 later
      refine ⟨.cons less ih.1, fun v member => ?_⟩
      rcases List.mem_cons.mp member with rfl | inside
      · exact (all_vars_mem store node.var).mpr (sound.allocated set node tests)
      · exact ih.2 v inside

theorem models_over_ok (store : Store) (sound : store.Sound) (f set : Ref) (live : store.Live f)
    (setLive : store.Live set) (vars : List Var) (members : store.Members set vars)
    (reads : ∀ v, v ∉ vars → ∀ env value, store.eval f (Function.update env v value) = store.eval f env)
    (env : Var → Bool) : store.modelsOver f set = .ok (ways vars (store.eval f) env) := by
  obtain ⟨ascending, inside⟩ := members_ascending store sound set vars members
  have once : vars.Nodup := ascending.imp fun less => Nat.ne_of_lt less
  let extra := store.allVars.filter (· ∉ vars)
  have perm : store.allVars.Perm (extra ++ vars) := by
    have listed : (store.allVars.filter (· ∈ vars)).Perm vars := by
      refine (List.perm_ext_iff_of_nodup ((List.nodup_range' 1).filter _) once).mpr fun v => ?_
      rw [List.mem_filter, decide_eq_true_eq]
      exact and_iff_right_of_imp (inside v)
    refine (List.filter_append_perm (· ∈ vars) store.allVars).symm.trans ?_
    refine (listed.append_right _).trans (List.perm_append_comm.trans (List.Perm.of_eq ?_))
    simp only [extra, decide_not]
  have count : store.weight env f = 2 ^ extra.length * ways vars (store.eval f) env := by
    rw [weight, ways_perm _ _ perm, ways_free extra vars _ fun v member => reads v ?_]
    simpa using (List.mem_filter.mp member).2
  have rest : store.numVars - vars.length = extra.length := by
    have lengths := perm.length_eq
    rw [List.length_append, allVars, List.length_range'] at lengths
    lia
  rw [modelsOver, members_ok store sound set setLive vars members, models_ok store sound f live env]
  simp only [bind, Except.bind, pure, Except.pure, rest, count, Nat.shiftRight_eq_div_pow,
    Nat.mul_div_cancel_left _ (Nat.two_pow_pos extra.length)]

end Store
end DomainDiagram
