import DomainDiagram.Proofs.Canonicity
import DomainDiagram.Proofs.Paths
import DomainDiagram.Proofs.Support

set_option autoImplicit false

namespace DomainDiagram

namespace Store

-- The choices that lead to true when "true" is chosen unless that leads to
-- false at once.
inductive Greedy (store : Store) : Ref → Path → Prop where
  | arrived : Greedy store 1 []
  | high (f : Ref) (node : Node) (path : Path) (tests : store.Tests f node) (onward : node.high ≠ 0)
      (rest : Greedy store node.high path) : Greedy store f ((node.var, true) :: path)
  | low (f : Ref) (node : Node) (path : Path) (tests : store.Tests f node) (closed : node.high = 0)
      (rest : Greedy store node.low path) : Greedy store f ((node.var, false) :: path)

theorem model_from_high (store : Store) (steps : Nat) (f : Ref) (node : Node) (path : Path) (tests : store.Tests f node)
    (onward : node.high ≠ 0) (rest : store.modelFrom steps node.high = .ok path) :
    store.modelFrom (steps + 1) f = .ok ((node.var, true) :: path) := by
  have notZero : node.high.isZero = false := beq_eq_false_iff_ne.mpr onward
  simp [modelFrom, (tests_large store f node tests).2, node_tests store f node tests, notZero, rest, bind,
    Except.bind, pure, Except.pure]

theorem model_from_low (store : Store) (steps : Nat) (f : Ref) (node : Node) (path : Path) (tests : store.Tests f node)
    (closed : node.high = 0) (rest : store.modelFrom steps node.low = .ok path) :
    store.modelFrom (steps + 1) f = .ok ((node.var, false) :: path) := by
  have zero : node.high.isZero = true := beq_iff_eq.mpr closed
  simp [modelFrom, (tests_large store f node tests).2, node_tests store f node tests, zero, rest, bind,
    Except.bind, pure, Except.pure]

theorem model_greedy (store : Store) (sound : store.Sound) (f : Ref) (live : store.Live f) (satisfiable : f ≠ 0) :
    ∃ path, store.modelFrom store.steps f = .ok path ∧ store.Greedy f path := by
  apply walk_induction store sound
    (fun steps f => f ≠ 0 → ∃ path, store.modelFrom steps f = .ok path ∧ store.Greedy f path) _ _ _ f live satisfiable
  · exact fun _ other => absurd rfl other
  · exact fun _ _ => ⟨[], rfl, .arrived⟩
  · intro steps f node tests low high _
    by_cases closed : node.high = 0
    · -- no decision has false on both sides
      have onward : node.low ≠ 0 := fun zero => sound.irredundant f node tests (zero.trans closed.symm)
      obtain ⟨path, walked, taken⟩ := low onward
      exact ⟨_, model_from_low store steps f node path tests closed walked, .low f node path tests closed taken⟩
    · obtain ⟨path, walked, taken⟩ := high closed
      exact ⟨_, model_from_high store steps f node path tests closed walked, .high f node path tests closed taken⟩

theorem greedy_leads (store : Store) (f : Ref) (path : Path) (taken : store.Greedy f path) : store.Leads f path := by
  induction taken with
  | arrived => exact .arrived
  | high f node path tests _ _ ih => exact .high f node path tests ih
  | low f node path tests _ _ ih => exact .low f node path tests ih

theorem eval_along (store : Store) (sound : store.Sound) (f : Ref) (node : Node) (tests : store.Tests f node)
    (value : Bool) (path : Path) (env : Var → Bool) (agrees : Path.agrees env ((node.var, value) :: path) = true) :
    store.eval f env = store.eval (if value then node.high else node.low) env ∧ Path.agrees env path = true := by
  rw [Path.agrees_cons, Bool.and_eq_true, beq_iff_eq] at agrees
  obtain ⟨chosen, rest⟩ := agrees
  refine ⟨?_, rest⟩
  rw [eval_tests store sound env f node tests, chosen]
  cases value <;> rfl

theorem leads_true (store : Store) (sound : store.Sound) (f : Ref) (path : Path) (leads : store.Leads f path)
    (env : Var → Bool) (agrees : Path.agrees env path = true) : store.eval f env = true := by
  induction leads with
  | arrived => exact store.eval_one env
  | low f node path tests _ ih =>
      obtain ⟨step, rest⟩ := eval_along store sound f node tests false path env agrees
      exact step.trans (ih rest)
  | high f node path tests _ ih =>
      obtain ⟨step, rest⟩ := eval_along store sound f node tests true path env agrees
      exact step.trans (ih rest)

theorem leads_depends (store : Store) (sound : store.Sound) (f : Ref) (path : Path) (leads : store.Leads f path)
    (choice : Var × Bool) (member : choice ∈ path) : store.Depends f choice.1 := by
  induction leads with
  | arrived => cases member
  | low f node path tests _ ih =>
      rcases List.mem_cons.mp member with rfl | later
      · exact depends_here sound tests
      · exact depends_child sound tests false choice.1 (ih later)
  | high f node path tests _ ih =>
      rcases List.mem_cons.mp member with rfl | later
      · exact depends_here sound tests
      · exact depends_child sound tests true choice.1 (ih later)

theorem greedy_forced (store : Store) (sound : store.Sound) (f : Ref) (path : Path) (taken : store.Greedy f path)
    (before after : Path) (v : Var) (split : path = before ++ (v, false) :: after) (env : Var → Bool)
    (agrees : Path.agrees env before = true) (chosen : env v = true) : store.eval f env = false := by
  induction taken generalizing before with
  | arrived => exact absurd split.symm (List.append_ne_nil_of_right_ne_nil _ (List.cons_ne_nil _ _))
  | high f node path tests onward _ ih =>
      cases before with
      | nil => cases (Prod.mk.inj (List.cons.inj split).1).2
      | cons choice before =>
          obtain ⟨rfl, rest⟩ := List.cons.inj split
          obtain ⟨step, onward⟩ := eval_along store sound f node tests true before env agrees
          exact step.trans (ih before rest onward)
  | low f node path tests closed _ ih =>
      cases before with
      | nil =>
          obtain ⟨rfl, _⟩ := Prod.mk.inj (List.cons.inj split).1
          rw [eval_tests store sound env f node tests, chosen, closed, eval_zero]
          rfl
      | cons choice before =>
          obtain ⟨rfl, rest⟩ := List.cons.inj split
          obtain ⟨step, onward⟩ := eval_along store sound f node tests false before env agrees
          exact step.trans (ih before rest onward)

-- What a path chooses: listed variables in their order, so that f is true
-- however the others are chosen, and "true" wherever that can still be.
structure Satisfying (store : Store) (f : Ref) (vars : List Var) (path : Path) : Prop where
  ascending : (path.map (·.1)).Pairwise (· < ·)
  listed : ∀ choice ∈ path, choice.1 ∈ vars
  satisfied : ∀ env, Path.agrees env path = true → store.eval f env = true
  greedy : ∀ before v after, path = before ++ (v, false) :: after →
    ∀ env, Path.agrees env before = true → env v = true → store.eval f env = false

theorem greedy_satisfying (store : Store) (sound : store.Sound) (f : Ref) (live : store.Live f) (path : Path)
    (taken : store.Greedy f path) (vars : List Var) (support : ∀ v, v ∈ vars ↔ store.Depends f v) :
    store.Satisfying f vars path := by
  have leads := greedy_leads store f path taken
  constructor
  case ascending => exact (leads_ascending store sound f path leads 0 (live_below store sound f live)).2
  case listed => exact fun choice member => (support _).mpr (leads_depends store sound f path leads choice member)
  case satisfied => exact leads_true store sound f path leads
  case greedy => exact fun before v after => greedy_forced store sound f path taken before after v

theorem model_answers (store : Store) (sound : store.Sound) (f : Ref) (live : store.Live f) :
    ∃ vars choice, store.support f = .ok vars ∧ store.model f = .ok choice ∧
      (choice = none ↔ ∀ env, store.eval f env = false) ∧
      ∀ path, choice = some path → store.Satisfying f vars path := by
  obtain ⟨vars, read, _, support⟩ := support_depends store sound f live
  have contradiction := (live_canonical store sound f live).contradiction
  by_cases zero : f = 0
  · refine ⟨vars, none, read, ?_, ⟨fun _ => contradiction.mpr zero, fun _ => rfl⟩, ?_⟩
    · have isZero : f.isZero = true := beq_iff_eq.mpr zero
      rw [model, if_pos isZero]
    · intro path same
      exact absurd same.symm (Option.some_ne_none path)
  · obtain ⟨path, walked, taken⟩ := model_greedy store sound f live zero
    have notZero : f.isZero = false := beq_eq_false_iff_ne.mpr zero
    have told := Option.some_ne_none path
    refine ⟨vars, some path, read, ?_, ⟨(absurd · told), fun never => absurd (contradiction.mp never) zero⟩, ?_⟩
    · simp [model, notZero, walked, Functor.map, Except.map]
    · intro other same
      cases same
      exact greedy_satisfying store sound f live path taken vars support

end Store

namespace Workspace

theorem model_told (ws : Workspace) (reachable : ws.Reachable) (m : Nat) (store : Store)
    (found : ws.stores[m]? = some store) (f : Ref) (live : store.Live f) :
    ∃ vars choice, (ws.look (.ask m (.support f))).1 = .fact (.ok (.vars vars)) ∧
      (ws.look (.ask m (.model f))).1 = .fact (.ok (.choices choice)) ∧
      (choice = none ↔ ∀ env, store.eval f env = false) ∧
      ∀ path, choice = some path → store.Satisfying f vars path := by
  obtain ⟨vars, choice, read, walked, none, some⟩ :=
    Store.model_answers store (reachable_sound ws reachable m store found) f live
  refine ⟨vars, choice, ?_, ?_, none, some⟩
  · rw [ask_told ws m _ store found, Store.answer, read, Store.told]
  · rw [ask_told ws m _ store found, Store.answer, walked, Store.told]

-- The second or the third variable but not both, and not the first: "false"
-- is forced on the first, and "true" for the second forces it on the third.
theorem forced_choices_told :
    ∃ (ws : Workspace) (store : Store),
      ws = empty.run [.newStore {}, .newVars 0 4, .construct 0 (.literal 2 true), .construct 0 (.literal 3 true),
        .construct 0 (.combine .xor 2 3), .construct 0 (.branch 1 5 0)] ∧
      ws.stores[0]? = some store ∧ store.Live 6 ∧
      (ws.look (.ask 0 (.model 6))).1 = .fact (.ok (.choices (some [(1, false), (2, true), (3, false)]))) ∧
      store.Satisfying 6 [1, 2, 3] [(1, false), (2, true), (3, false)] := by
  obtain ⟨ws, built⟩ : ∃ ws, ws = empty.run [.newStore {}, .newVars 0 4, .construct 0 (.literal 2 true),
    .construct 0 (.literal 3 true), .construct 0 (.combine .xor 2 3), .construct 0 (.branch 1 5 0)] := ⟨_, rfl⟩
  have known : ws.stores[0]?.any (fun store => decide (store.Live 6 ∧ store.support 6 = .ok [1, 2, 3] ∧
      store.model 6 = .ok (some [(1, false), (2, true), (3, false)]))) = true := by
    rw [built]
    decide +kernel
  obtain ⟨store, found, known⟩ := (Option.any_eq_true _ _).mp known
  obtain ⟨live, read, walked⟩ := of_decide_eq_true known
  obtain ⟨vars, choice, listed, told, _, satisfying⟩ := model_told ws ⟨_, built.symm⟩ 0 store found 6 live
  rw [ask_told ws 0 _ store found, Store.answer, read] at listed
  have answer := told
  rw [ask_told ws 0 _ store found, Store.answer, walked] at answer
  cases listed
  cases answer
  exact ⟨ws, store, built, found, live, told, satisfying _ rfl⟩

end Workspace
end DomainDiagram
