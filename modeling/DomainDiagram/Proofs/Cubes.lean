import DomainDiagram.Proofs.Exactness
import DomainDiagram.Proofs.Counting
import Mathlib.Data.List.Sort

set_option autoImplicit false

namespace DomainDiagram

namespace Var

@[simp] theorem sorted_mem (vars : List Var) (v : Var) : v ∈ sorted vars ↔ v ∈ vars := by
  rw [sorted, Std.TreeSet.mem_toList, Std.TreeSet.mem_ofList, List.contains_iff_mem]

theorem sorted_ascending (vars : List Var) : (sorted vars).Pairwise (· < ·) :=
  Std.TreeSet.ordered_toList.imp fun less => Nat.compare_eq_lt.mp less

theorem sorted_unique (vars other : List Var) (ascending : other.Pairwise (· < ·))
    (same : ∀ v, v ∈ other ↔ v ∈ vars) : other = sorted vars :=
  ascending.eq_of_mem_iff (sorted_ascending vars) fun v => (same v).trans (sorted_mem vars v).symm

theorem all_same (vars other : List Var) (same : ∀ v, v ∈ vars ↔ v ∈ other) (env : Var → Bool) :
    vars.all env = other.all env := by
  rw [Bool.eq_iff_iff, List.all_eq_true, List.all_eq_true]
  exact forall_congr' fun v => by rw [same]

theorem all_unread (vars : List Var) (v : Var) (absent : v ∉ vars) (env : Var → Bool) (value : Bool) :
    vars.all (Function.update env v value) = vars.all env := by
  rw [Bool.eq_iff_iff, List.all_eq_true, List.all_eq_true]
  refine forall₂_congr fun w inside => ?_
  have different : w ≠ v := fun same => absent (same ▸ inside)
  rw [Function.update_of_ne different]

end Var

namespace Store

theorem members_conjunction (store : Store) (sound : store.Sound) (set : Ref) (listed : List Var)
    (members : store.Members set listed) (vars : List Var)
    (conjunction : ∀ env, store.eval set env = vars.all env) : ∀ v, v ∈ listed ↔ v ∈ vars := by
  induction members generalizing vars with
  | nil set small =>
      have constant : ∀ env, vars.all env = set.isOne := fun env =>
        (conjunction env).symm.trans (eval_terminal store env set small)
      have none : vars = [] := by
        have same : vars.all (fun _ => false) = vars.all (fun _ => true) :=
          (constant _).trans (constant _).symm
        cases vars with
        | nil => rfl
        | cons v rest => simp at same
      rw [none]
      exact fun v => Iff.rfl
  | cons set node rest tests _ ih =>
      have splits : store.Splits node.var set node.low node.high := .inr tests
      have low : ∀ env, store.eval node.low env = vars.all (Function.update env node.var false) :=
        fun env => (splits_low store sound env node.var set _ _ splits).symm.trans (conjunction _)
      have high : ∀ env, store.eval node.high env = vars.all (Function.update env node.var true) :=
        fun env => (splits_high store sound env node.var set _ _ splits).symm.trans (conjunction _)
      -- a node that tested another variable would have two children for one function
      have first : node.var ∈ vars := by
        by_contra absent
        have same : ∀ env, store.eval node.low env = store.eval node.high env := by
          intro env
          rw [low, high, Var.all_unread vars node.var absent, Var.all_unread vars node.var absent]
        exact sound.irredundant set node tests ((eval_injective store sound node.low node.high
          (low_live store sound set node tests) (high_live store sound set node tests)).mp same)
      have others : ∀ env, store.eval node.high env = (vars.filter (· ≠ node.var)).all env := by
        intro env
        rw [high, Bool.eq_iff_iff, List.all_eq_true, List.all_eq_true]
        constructor
        · intro all v member
          obtain ⟨inside, different⟩ := List.mem_filter.mp member
          have value := all v inside
          rwa [Function.update_of_ne (of_decide_eq_true different)] at value
        · intro all v inside
          by_cases same : v = node.var
          · rw [same, Function.update_self]
          · rw [Function.update_of_ne same]
            exact all v (List.mem_filter.mpr ⟨inside, decide_eq_true same⟩)
      intro v
      rw [List.mem_cons, ih _ others, List.mem_filter, decide_eq_true_eq]
      constructor
      · rintro (rfl | ⟨inside, _⟩)
        · exact first
        · exact inside
      · intro inside
        by_cases same : v = node.var
        · exact .inl same
        · exact .inr ⟨inside, same⟩

theorem conjunction_members (store : Store) (sound : store.Sound) (set : Ref) (live : store.Live set)
    (vars : List Var) (conjunction : ∀ env, store.eval set env = vars.all env) :
    store.Members set (Var.sorted vars) := by
  obtain ⟨listed, members⟩ := members_exist store sound set live
  have ascending := (members_ascending store sound set listed members).1
  have same := members_conjunction store sound set listed members vars conjunction
  exact Var.sorted_unique vars listed ascending same ▸ members

end Store

namespace Action

open Store

theorem gives_chain (book : Book) (vars : List Var) (ascending : vars.Pairwise (· < ·)) (store : Store)
    (coherent : store.Coherent book) (allocated : ∀ v ∈ vars, 0 < v ∧ v ≤ store.numVars) :
    ∃ r next, vars.foldrM (fun v rest => branch v 0 rest) 1 store = .ok r next ∧ Advances book store next ∧
      (∀ v, (∀ w ∈ vars, v < w) → next.Below v r) ∧ ∀ env, next.eval r env = vars.all env := by
  induction vars with
  | nil =>
      refine ⟨1, store, rfl, advances_refl book store coherent, fun _ _ => .inl (Nat.le_refl 1), store.eval_one⟩
  | cons v rest ih =>
      obtain ⟨above, later⟩ := List.pairwise_cons.mp ascending
      obtain ⟨positive, bound⟩ := allocated v List.mem_cons_self
      obtain ⟨set, middle, done, advanced, below, value⟩ :=
        ih later fun w member => allocated w (List.mem_cons_of_mem v member)
      -- the rest of the set is there already, and tests later variables only
      have admits : middle.Admits v 0 set :=
        ⟨positive, advanced.built.vars ▸ bound, .inl (Nat.zero_le 1), below v above⟩
      obtain ⟨r, next, made, further, node⟩ :=
        ends_done (branch v 0 set) middle _ _ (advance_branch book middle advanced.coherent v 0 set)
          fun _ _ refused => refused.2 admits
      have grown := advances_extends book middle next further
      have sound := further.coherent.sound
      refine ⟨r, next, ?_, advances_trans book store middle next advanced further, fun u first => ?_,
        fun env => ?_⟩
      · rw [List.foldrM_cons]
        simpa only [bind, EStateM.bind, done] using made
      · exact made_below next v u 0 set r (first v List.mem_cons_self) (.inl (Nat.zero_le 1)) node
      · rw [eval_made next sound env v r 0 set node, eval_zero,
          eval_extends middle next advanced.coherent.sound sound grown set
            (below_live middle v set (below v above)) env, value, List.all_cons]
        cases env v <;> rfl

theorem gives_cube (book : Book) (store : Store) (coherent : store.Coherent book) (vars : List Var)
    (allocated : ∀ v ∈ vars, 0 < v ∧ v ≤ store.numVars) :
    Gives book (cube vars) store fun env => vars.all env := by
  obtain ⟨r, next, done, advanced, below, value⟩ := gives_chain book (Var.sorted vars)
    (Var.sorted_ascending vars) store coherent fun v member => allocated v ((Var.sorted_mem vars v).mp member)
  refine ⟨r, next, done, advanced, ?_, fun env => ?_⟩
  · exact below_live next 0 r (below 0 fun v member => (allocated v ((Var.sorted_mem vars v).mp member)).1)
  · exact (value env).trans (Var.all_same _ vars (Var.sorted_mem vars) env)

end Action
end DomainDiagram
