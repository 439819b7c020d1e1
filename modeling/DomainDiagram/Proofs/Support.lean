import DomainDiagram.Proofs.Asking
import DomainDiagram.Proofs.Dependence

set_option autoImplicit false

namespace DomainDiagram

namespace Store

def Constant (store : Store) (f : Ref) : Prop := ∃ value, ∀ env, store.eval f env = value

theorem depends_after (store : Store) (sound : store.Sound) (v w : Var) (f : Ref) (below : store.Below v f)
    (depends : store.Depends f w) : v < w := by
  by_contra early
  obtain ⟨env, changed⟩ := depends
  refine changed (eval_agree store sound _ env v f below fun u after => ?_)
  have other : u ≠ w := by lia
  exact Function.update_of_ne other _ env

theorem constant_terminal (store : Store) (f : Ref) (small : f ≤ 1) : store.Constant f :=
  ⟨f.isOne, fun env => eval_terminal store env f small⟩

theorem constant_free (store : Store) (f : Ref) (constant : store.Constant f) (v : Var) : ¬ store.Depends f v := by
  obtain ⟨value, same⟩ := constant
  rintro ⟨env, changed⟩
  exact changed ((same _).trans (same env).symm)

structure Supported (store : Store) (f : Ref) (vars : List Var) (top : Option Var) : Prop where
  ascending : vars.Pairwise (· < ·)
  dependence : ∀ v, v ∈ vars ↔ store.Depends f v
  least : ∀ v, top = some v ↔ store.Depends f v ∧ ∀ w, store.Depends f w → v ≤ w
  constant : top = none ↔ store.Constant f

theorem top_terminal (store : Store) (f : Ref) (small : f ≤ 1) : store.topVar f = .ok none := by
  simp [topVar, small]

theorem top_tests (store : Store) (f : Ref) (node : Node) (tests : store.Tests f node) :
    store.topVar f = .ok (some node.var) := by
  simp [topVar, tests.1, node_tests store f node tests]

-- A decision depends on the variable that it tests, and both its children lie
-- below that variable, so the root's is the first.
theorem top_least (store : Store) (sound : store.Sound) (f : Ref) (node : Node) (tests : store.Tests f node) (v : Var) :
    node.var = v ↔ store.Depends f v ∧ ∀ w, store.Depends f w → v ≤ w := by
  have first : ∀ w, store.Depends f w → node.var ≤ w := by
    intro w depends
    obtain ⟨low, high⟩ := sound.ordered f node tests
    rcases (depends_decision sound tests w).mp depends with rfl | lower | higher
    · exact Nat.le_refl _
    · exact Nat.le_of_lt (depends_after store sound node.var w node.low low lower)
    · exact Nat.le_of_lt (depends_after store sound node.var w node.high high higher)
  constructor
  · rintro rfl
    exact ⟨depends_here sound tests, first⟩
  · rintro ⟨depends, least⟩
    exact Nat.le_antisymm (first v depends) (least node.var (depends_here sound tests))

theorem live_supported (store : Store) (sound : store.Sound) (f : Ref) (live : store.Live f) :
    ∃ vars top, store.support f = .ok vars ∧ store.topVar f = .ok top ∧ store.Supported f vars top := by
  obtain ⟨vars, read, ascending, dependence⟩ := support_depends store sound f live
  rcases live with small | ⟨node, tests⟩
  · have free : ∀ v, ¬ store.Depends f v := constant_free store f (constant_terminal store f small)
    refine ⟨vars, none, read, top_terminal store f small, ascending, dependence, fun v => ?_, ?_⟩
    · exact ⟨nofun, fun least => absurd least.1 (free v)⟩
    · exact ⟨fun _ => constant_terminal store f small, fun _ => rfl⟩
  · refine ⟨vars, some node.var, read, top_tests store f node tests, ascending, dependence, fun v => ?_, ?_⟩
    · rw [Option.some.injEq]
      exact top_least store sound f node tests v
    · exact ⟨nofun, fun constant => absurd (depends_here sound tests) (constant_free store f constant node.var)⟩

end Store

namespace Workspace

theorem support_told (ws : Workspace) (reachable : ws.Reachable) (m : Nat) (store : Store)
    (found : ws.stores[m]? = some store) (f : Ref) (live : store.Live f) :
    ∃ vars top, (ws.look (.ask m (.support f))).1 = .fact (.ok (.vars vars)) ∧
      (ws.look (.ask m (.topVar f))).1 = .fact (.ok (.top top)) ∧ store.Supported f vars top := by
  obtain ⟨vars, top, read, root, supported⟩ :=
    Store.live_supported store (reachable_sound ws reachable m store found) f live
  refine ⟨vars, top, ?_, ?_, supported⟩
  · rw [ask_told ws m _ store found, Store.answer, read, Store.told]
  · rw [ask_told ws m _ store found, Store.answer, root, Store.told]

-- Whether the first variable differs from the third of three.
theorem difference_supported :
    ∃ (ws : Workspace) (store : Store),
      ws = empty.run [.newStore {}, .newVars 0 3, .construct 0 (.literal 1 true), .construct 0 (.literal 2 true),
        .construct 0 (.literal 3 true), .construct 0 (.combine .xor 2 4)] ∧
      ws.stores[0]? = some store ∧ store.Live 6 ∧ (ws.look (.ask 0 (.support 6))).1 = .fact (.ok (.vars [1, 3])) ∧
      (ws.look (.ask 0 (.topVar 6))).1 = .fact (.ok (.top (some 1))) ∧ store.Supported 6 [1, 3] (some 1) := by
  obtain ⟨ws, built⟩ : ∃ ws, ws = empty.run [.newStore {}, .newVars 0 3, .construct 0 (.literal 1 true),
    .construct 0 (.literal 2 true), .construct 0 (.literal 3 true), .construct 0 (.combine .xor 2 4)] := ⟨_, rfl⟩
  have known : ws.stores[0]?.any (fun store =>
      decide (store.Live 6 ∧ store.support 6 = .ok [1, 3] ∧ store.topVar 6 = .ok (some 1))) = true := by
    rw [built]
    decide +kernel
  obtain ⟨store, found, known⟩ := (Option.any_eq_true _ _).mp known
  obtain ⟨live, read, root⟩ := of_decide_eq_true known
  obtain ⟨vars, top, listed, first, supported⟩ := support_told ws ⟨_, built.symm⟩ 0 store found 6 live
  rw [ask_told ws 0 _ store found, Store.answer, read] at listed
  rw [ask_told ws 0 _ store found, Store.answer, root] at first
  cases listed
  cases first
  refine ⟨ws, store, built, found, live, ?_, ?_, supported⟩
  · rw [ask_told ws 0 _ store found, Store.answer, read, Store.told]
  · rw [ask_told ws 0 _ store found, Store.answer, root, Store.told]

end Workspace
end DomainDiagram
