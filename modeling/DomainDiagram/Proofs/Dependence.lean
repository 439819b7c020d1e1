import DomainDiagram.Proofs.Blocks
import DomainDiagram.Proofs.Substitution

set_option autoImplicit false

namespace DomainDiagram.Store

def Depends (store : Store) (f : Ref) (v : Var) : Prop :=
  ∃ env : Var → Bool, store.eval f (Function.update env v (!env v)) ≠ store.eval f env

theorem depends_not (store : Store) (f : Ref) (v : Var) : ¬ store.Depends f v ↔
    ∀ env value, store.eval f (Function.update env v value) = store.eval f env := by
  constructor
  · intro none env value
    by_cases same : value = env v
    · rw [same, Function.update_eq_self]
    · by_contra changed
      exact none ⟨env, Bool.eq_not.mpr same ▸ changed⟩
  · rintro free ⟨env, changed⟩
    exact changed (free env _)

theorem depends_terminal (store : Store) (f : Ref) (small : f ≤ 1) (v : Var) : ¬ store.Depends f v :=
  (depends_not store f v).mpr fun env value => by
    simp [small]

section Decision

variable {store : Store} (sound : store.Sound) {f : Ref} {node : Node} (tests : store.Tests f node)
include sound tests

theorem eval_chosen (env : Var → Bool) (choice : Bool) :
    store.eval f (Function.update env node.var choice) =
      store.eval (if choice then node.high else node.low) env := by
  cases choice with
  | false => exact splits_low store sound env node.var f _ _ (.inr tests)
  | true => exact splits_high store sound env node.var f _ _ (.inr tests)

theorem depends_here : store.Depends f node.var := by
  -- one function has one node, so that two children cannot agree everywhere
  have differ : ∃ env, store.eval node.low env ≠ store.eval node.high env := by
    by_contra none
    have same : ∀ env, store.eval node.low env = store.eval node.high env := by simpa using none
    exact sound.irredundant f node tests ((eval_injective store sound node.low node.high
      (low_live store sound f node tests) (high_live store sound f node tests)).mp same)
  obtain ⟨env, differ⟩ := differ
  refine ⟨Function.update env node.var false, ?_⟩
  rw [Function.update_self, Function.update_idem, eval_chosen sound tests, eval_chosen sound tests]
  exact differ.symm

theorem depends_child (choice : Bool) (v : Var)
    (child : store.Depends (if choice then node.high else node.low) v) : store.Depends f v := by
  have other : v ≠ node.var := by
    rintro rfl
    exact (depends_not store _ _).mpr (fun env value => eval_update store sound env node.var value _
      (branch_below store sound f node tests choice)) child
  obtain ⟨env, changed⟩ := child
  refine ⟨Function.update env node.var choice, ?_⟩
  rw [Function.update_of_ne other, Function.update_comm (Ne.symm other), eval_chosen sound tests,
    eval_chosen sound tests]
  exact changed

theorem depends_decision (v : Var) :
    store.Depends f v ↔ v = node.var ∨ store.Depends node.low v ∨ store.Depends node.high v := by
  constructor
  · intro depends
    by_contra none
    obtain ⟨other, low, high⟩ : v ≠ node.var ∧ ¬ store.Depends node.low v ∧ ¬ store.Depends node.high v := by
      simpa only [not_or] using none
    refine (depends_not store f v).mpr (fun env value => ?_) depends
    rw [eval_tests store sound _ f node tests, eval_tests store sound env f node tests,
      Function.update_of_ne (Ne.symm other), (depends_not store _ v).mp low, (depends_not store _ v).mp high]
  · rintro (rfl | low | high)
    · exact depends_here sound tests
    · exact depends_child sound tests false v low
    · exact depends_child sound tests true v high

end Decision

theorem depends_reaches (store : Store) (sound : store.Sound) (f : Ref) (live : store.Live f) (v : Var) :
    store.Depends f v ↔ ∃ g node, store.Reaches f g ∧ store.Tests g node ∧ node.var = v := by
  constructor
  · refine live_induction store sound (fun f => store.Depends f v →
      ∃ g node, store.Reaches f g ∧ store.Tests g node ∧ node.var = v) ?_ ?_ f live
    · exact fun f small depends => absurd depends (depends_terminal store f small v)
    · intro f node tests low high depends
      rcases (depends_decision sound tests v).mp depends with rfl | lower | higher
      · exact ⟨f, node, .here f, tests, rfl⟩
      · obtain ⟨g, other, reach, found⟩ := low lower
        exact ⟨g, other, .low f g node tests reach, found⟩
      · obtain ⟨g, other, reach, found⟩ := high higher
        exact ⟨g, other, .high f g node tests reach, found⟩
  · rintro ⟨g, node, reach, tests, rfl⟩
    induction reach with
    | here => exact depends_here sound tests
    | low f g parent above _ ih =>
        exact depends_child sound above false _ (ih (low_live store sound f parent above) tests)
    | high f g parent above _ ih =>
        exact depends_child sound above true _ (ih (high_live store sound f parent above) tests)

theorem support_ascending (store : Store) (f : Ref) (vars : List Var) (read : store.support f = .ok vars) :
    vars.Pairwise (· < ·) := by
  obtain ⟨seen, _, read⟩ := BlockTable.bind_ok _ _ _ read
  obtain ⟨tested, _, read⟩ := BlockTable.bind_ok _ _ _ read
  obtain rfl := Except.ok.inj read
  exact Var.sorted_ascending tested

theorem support_depends (store : Store) (sound : store.Sound) (f : Ref) (live : store.Live f) :
    ∃ vars, store.support f = .ok vars ∧ vars.Pairwise (· < ·) ∧ ∀ v, v ∈ vars ↔ store.Depends f v := by
  obtain ⟨vars, read, tested⟩ := support_reaches store sound f live
  exact ⟨vars, read, support_ascending store f vars read, fun v =>
    (tested v).trans (depends_reaches store sound f live v).symm⟩

theorem depends_congr (store later : Store) (f : Ref) (same : ∀ env, later.eval f env = store.eval f env) (v : Var) :
    later.Depends f v ↔ store.Depends f v := by
  simp only [Depends, same]

end DomainDiagram.Store
