import DomainDiagram.Proofs.Growth
import DomainDiagram.Reach
import Mathlib.Logic.Function.Basic

set_option autoImplicit false

namespace DomainDiagram.Store

def evalFrom (store : Store) (env : Var → Bool) : Nat → Ref → Bool
  | 0, _ => false
  | steps + 1, f =>
      if f.isTerminal then f.isOne
      else
        match store.node f with
        | .ok node => store.evalFrom env steps (if env node.var then node.high else node.low)
        | .error _ => false

def eval (store : Store) (f : Ref) (env : Var → Bool) : Bool := store.evalFrom env store.steps f

theorem eval_from_terminal (store : Store) (env : Var → Bool) (steps : Nat) (f : Ref) (small : f ≤ 1) :
    store.evalFrom env (steps + 1) f = f.isOne := by
  simp [evalFrom, small]

theorem eval_from_tests (store : Store) (env : Var → Bool) (steps : Nat) (f : Ref) (node : Node)
    (tests : store.Tests f node) : store.evalFrom env (steps + 1) f =
      store.evalFrom env steps (if env node.var then node.high else node.low) := by
  simp [evalFrom, tests.1, node_tests store f node tests]

theorem branch_below (store : Store) (sound : store.Sound) (f : Ref) (node : Node)
    (tests : store.Tests f node) (choice : Bool) :
    store.Below node.var (if choice then node.high else node.low) := by
  cases choice with
  | false => exact (sound.ordered f node tests).1
  | true => exact (sound.ordered f node tests).2

-- A walk from below v ends within as many steps as there are variables after
-- v, and one more.
theorem eval_from_enough (store : Store) (sound : store.Sound) (env : Var → Bool) (a b : Nat) (v : Nat)
    (f : Ref) (below : store.Below v f) (inside : v ≤ store.numVars) (left : store.numVars < v + a)
    (right : store.numVars < v + b) : store.evalFrom env a f = store.evalFrom env b f := by
  induction a generalizing b v f with
  | zero => omega
  | succ a ih =>
      cases b with
      | zero => omega
      | succ b =>
          rcases below with small | ⟨node, tests, less⟩
          · rw [eval_from_terminal store env a f small, eval_from_terminal store env b f small]
          · rw [eval_from_tests store env a f node tests, eval_from_tests store env b f node tests]
            have bound := (sound.allocated f node tests).2
            exact ih b node.var _ (branch_below store sound f node tests _) bound (by lia) (by lia)

@[simp] theorem eval_terminal (store : Store) (env : Var → Bool) (f : Ref) (small : f ≤ 1) :
    store.eval f env = f.isOne := eval_from_terminal store env store.numVars f small

@[simp] theorem eval_zero (store : Store) (env : Var → Bool) : store.eval 0 env = false :=
  eval_terminal store env 0 (Nat.zero_le 1)

@[simp] theorem eval_one (store : Store) (env : Var → Bool) : store.eval 1 env = true :=
  eval_terminal store env 1 (Nat.le_refl 1)

theorem eval_tests (store : Store) (sound : store.Sound) (env : Var → Bool) (f : Ref) (node : Node)
    (tests : store.Tests f node) :
    store.eval f env = if env node.var then store.eval node.high env else store.eval node.low env := by
  obtain ⟨positive, bound⟩ := sound.allocated f node tests
  have walk : store.eval f env =
      store.evalFrom env store.numVars (if env node.var then node.high else node.low) :=
    eval_from_tests store env store.numVars f node tests
  have enough := eval_from_enough store sound env store.numVars store.steps node.var _
    (branch_below store sound f node tests (env node.var)) bound (by lia) (by simp only [steps]; lia)
  rw [walk, enough]
  cases env node.var <;> rfl

theorem live_induction (store : Store) (sound : store.Sound) (holds : Ref → Prop)
    (terminal : ∀ f, f ≤ 1 → holds f)
    (decision : ∀ f node, store.Tests f node → holds node.low → holds node.high → holds f)
    (f : Ref) (live : store.Live f) : holds f := by
  have each : ∀ (fuel v : Nat) (g : Ref), store.Below v g → v ≤ store.numVars →
      store.numVars < v + fuel → holds g := by
    intro fuel
    induction fuel with
    | zero => intro v g _ inside enough; omega
    | succ fuel ih =>
        intro v g below inside enough
        rcases below with small | ⟨node, tests, less⟩
        · exact terminal g small
        · have bound := (sound.allocated g node tests).2
          obtain ⟨low, high⟩ := sound.ordered g node tests
          exact decision g node tests (ih node.var node.low low bound (by lia))
            (ih node.var node.high high bound (by lia))
  exact each (store.numVars + 1) 0 f (live_below store sound f live) (Nat.zero_le _) (by omega)

theorem eval_agree (store : Store) (sound : store.Sound) (env other : Var → Bool) (v : Var) (f : Ref)
    (below : store.Below v f) (agree : ∀ w, v < w → env w = other w) :
    store.eval f env = store.eval f other := by
  have each : ∀ g, store.Live g → ∀ v, store.Below v g → (∀ w, v < w → env w = other w) →
      store.eval g env = store.eval g other := by
    apply live_induction store sound
    · intro g small v _ _
      rw [eval_terminal store env g small, eval_terminal store other g small]
    · intro g node tests low high v below agree
      have less := below_tests store v g node below tests
      have further : ∀ w, node.var < w → env w = other w := fun w after =>
        agree w (Nat.lt_trans less after)
      obtain ⟨lowBelow, highBelow⟩ := sound.ordered g node tests
      rw [eval_tests store sound env g node tests, eval_tests store sound other g node tests,
        agree node.var less, low node.var lowBelow further, high node.var highBelow further]
  exact each f (below_live store v f below) v below agree

theorem eval_update (store : Store) (sound : store.Sound) (env : Var → Bool) (v : Var) (value : Bool)
    (f : Ref) (below : store.Below v f) :
    store.eval f (Function.update env v value) = store.eval f env := by
  apply eval_agree store sound _ _ v f below
  intro w after
  exact Function.update_of_ne (Nat.ne_of_gt after) value env

theorem eval_splits (store : Store) (sound : store.Sound) (env : Var → Bool) (v : Var)
    (f low high : Ref) (splits : store.Splits v f low high) :
    store.eval f env = if env v then store.eval high env else store.eval low env := by
  rcases splits with ⟨_, rfl, rfl⟩ | tests
  · simp
  · exact eval_tests store sound env f _ tests

theorem eval_made (store : Store) (sound : store.Sound) (env : Var → Bool) (v : Var)
    (f low high : Ref) (made : store.Made v low high f) :
    store.eval f env = if env v then store.eval high env else store.eval low env := by
  rcases made with ⟨rfl, rfl⟩ | ⟨_, tests⟩
  · simp
  · exact eval_tests store sound env f _ tests

theorem eval_kept (old new : Store) (oldSound : old.Sound) (newSound : new.Sound)
    (f : Ref) (live : old.Live f) (kept : ∀ g node, old.Tests g node → new.Tests g node)
    (env : Var → Bool) : new.eval f env = old.eval f env := by
  apply live_induction old oldSound (fun g => new.eval g env = old.eval g env) _ _ f live
  · intro g small
    rw [eval_terminal new env g small, eval_terminal old env g small]
  · intro g node tests low high
    rw [eval_tests new newSound env g node (kept g node tests), eval_tests old oldSound env g node tests,
      low, high]

theorem eval_extends (old new : Store) (oldSound : old.Sound) (newSound : new.Sound)
    (grown : Extends old new) (f : Ref) (live : old.Live f) (env : Var → Bool) :
    new.eval f env = old.eval f env :=
  eval_kept old new oldSound newSound f live grown.kept env

theorem splits_low (store : Store) (sound : store.Sound) (env : Var → Bool) (v : Var)
    (f low high : Ref) (splits : store.Splits v f low high) :
    store.eval f (Function.update env v false) = store.eval low env := by
  have below := (splits_below store sound v f low high splits).1
  rw [eval_splits store sound _ v f low high splits, Function.update_self, if_neg Bool.false_ne_true,
    eval_update store sound env v false low below]

theorem splits_high (store : Store) (sound : store.Sound) (env : Var → Bool) (v : Var)
    (f low high : Ref) (splits : store.Splits v f low high) :
    store.eval f (Function.update env v true) = store.eval high env := by
  have below := (splits_below store sound v f low high splits).2
  rw [eval_splits store sound _ v f low high splits, Function.update_self, if_pos rfl,
    eval_update store sound env v true high below]

theorem common_split (store : Store) (f g : Ref) (left : store.Live f) (right : store.Live g)
    (decision : 2 ≤ f ∨ 2 ≤ g) :
    ∃ v f0 f1 g0 g1, (store.Heads v f ∨ store.Heads v g) ∧ store.Splits v f f0 f1 ∧
      store.Splits v g g0 g1 := by
  rcases left with fSmall | ⟨⟨v, f0, f1⟩, fTests⟩ <;> rcases right with gSmall | ⟨⟨w, g0, g1⟩, gTests⟩
  · exact absurd decision (by lia)
  · exact ⟨w, f, f, g0, g1, .inr ⟨g0, g1, gTests⟩, .inl ⟨.inl fSmall, rfl, rfl⟩, .inr gTests⟩
  · exact ⟨v, f0, f1, g, g, .inl ⟨f0, f1, fTests⟩, .inr fTests, .inl ⟨.inl gSmall, rfl, rfl⟩⟩
  · rcases Nat.lt_trichotomy v w with less | rfl | more
    · exact ⟨v, f0, f1, g, g, .inl ⟨f0, f1, fTests⟩, .inr fTests, .inl ⟨.inr ⟨_, gTests, less⟩, rfl, rfl⟩⟩
    · exact ⟨v, f0, f1, g0, g1, .inl ⟨f0, f1, fTests⟩, .inr fTests, .inr gTests⟩
    · exact ⟨w, f, f, g0, g1, .inr ⟨g0, g1, gTests⟩, .inl ⟨.inr ⟨_, fTests, more⟩, rfl, rfl⟩, .inr gTests⟩

theorem split_same (store : Store) (sound : store.Sound) (v : Var) (f g low high : Ref)
    (heads : store.Heads v f) (left : store.Splits v f low high) (right : store.Splits v g low high) :
    f = g := by
  obtain ⟨f0, f1, tests⟩ := heads
  obtain ⟨rfl, rfl⟩ := splits_unique store v f _ _ _ _ left (.inr tests)
  rcases right with ⟨_, lowSame, highSame⟩ | otherTests
  · exact absurd (lowSame.trans highSame.symm) (sound.irredundant f _ tests)
  · exact tests_ref_unique store sound _ f g tests otherTests

theorem equal_functions (store : Store) (sound : store.Sound) (fuel v : Nat) (f g : Ref)
    (inside : v ≤ store.numVars) (enough : store.numVars < v + fuel) (fBelow : store.Below v f)
    (gBelow : store.Below v g) (same : ∀ env, store.eval f env = store.eval g env) : f = g := by
  -- on the steps that walks from both may take: split at the topmost variable
  -- that either tests, the halves stand for one function each
  induction fuel generalizing v f g with
  | zero => omega
  | succ fuel ih =>
      by_cases decision : 2 ≤ f ∨ 2 ≤ g
      · obtain ⟨w, f0, f1, g0, g1, heads, left, right⟩ := common_split store f g
          (below_live store v f fBelow) (below_live store v g gBelow) decision
        have further : v < w ∧ w ≤ store.numVars := by
          rcases heads with ⟨a, b, tests⟩ | ⟨a, b, tests⟩
          · exact ⟨below_tests store v f _ fBelow tests, (sound.allocated f _ tests).2⟩
          · exact ⟨below_tests store v g _ gBelow tests, (sound.allocated g _ tests).2⟩
        obtain ⟨f0Below, f1Below⟩ := splits_below store sound w f f0 f1 left
        obtain ⟨g0Below, g1Below⟩ := splits_below store sound w g g0 g1 right
        have low : f0 = g0 := by
          refine ih w f0 g0 further.2 (by lia) f0Below g0Below (fun env => ?_)
          rw [← splits_low store sound env w f f0 f1 left, ← splits_low store sound env w g g0 g1 right, same]
        have high : f1 = g1 := by
          refine ih w f1 g1 further.2 (by lia) f1Below g1Below (fun env => ?_)
          rw [← splits_high store sound env w f f0 f1 left, ← splits_high store sound env w g g0 g1 right, same]
        subst low high
        rcases heads with fHeads | gHeads
        · exact split_same store sound w f g f0 f1 fHeads left right
        · exact (split_same store sound w g f f0 f1 gHeads right left).symm
      · have fSmall : f ≤ 1 := by lia
        have gSmall : g ≤ 1 := by lia
        have values := same (fun _ => false)
        rw [eval_terminal store _ f fSmall, eval_terminal store _ g gSmall] at values
        rcases Ref.terminal_cases f fSmall with rfl | rfl <;> rcases Ref.terminal_cases g gSmall with rfl | rfl
        · rfl
        · exact absurd values (by decide)
        · exact absurd values (by decide)
        · rfl

theorem eval_injective (store : Store) (sound : store.Sound) (f g : Ref) (left : store.Live f)
    (right : store.Live g) : (∀ env, store.eval f env = store.eval g env) ↔ f = g := by
  constructor
  · exact equal_functions store sound (store.numVars + 1) 0 f g (Nat.zero_le _) (by omega)
      (live_below store sound f left) (live_below store sound g right)
  · rintro rfl env
    rfl

end DomainDiagram.Store
