import DomainDiagram.Branch

set_option autoImplicit false

namespace DomainDiagram

namespace Ref

@[simp] theorem terminal_true (f : Ref) (small : f ≤ 1) : f.isTerminal = true := decide_eq_true small

@[simp] theorem terminal_false (f : Ref) (large : 2 ≤ f) : f.isTerminal = false :=
  decide_eq_false (Nat.not_le_of_lt large)

@[simp] theorem zero_is_zero : isZero 0 = true := rfl

@[simp] theorem one_is_zero : isZero 1 = false := rfl

@[simp] theorem zero_is_one : isOne 0 = false := rfl

@[simp] theorem one_is_one : isOne 1 = true := rfl

theorem terminal_or (f : Ref) : f ≤ 1 ∨ 2 ≤ f := Nat.lt_or_ge f 2 |>.imp_left Nat.le_of_lt_succ

theorem terminal_cases (f : Ref) (small : f ≤ 1) : f = 0 ∨ f = 1 := by lia

end Ref

namespace Store

-- A decision node in use. The two terminals test nothing.
def Tests (store : Store) (f : Ref) (node : Node) : Prop :=
  2 ≤ f ∧ store.arena[f]? = some (.live node)

def Live (store : Store) (f : Ref) : Prop := f ≤ 1 ∨ ∃ node, store.Tests f node

-- In use, and testing no variable down to v.
def Below (store : Store) (v : Var) (f : Ref) : Prop :=
  f ≤ 1 ∨ ∃ node, store.Tests f node ∧ v < node.var

-- What holds of the arena, the counts, the free slots and the levels between
-- any two requests: every slot is accounted for once, and the levels find
-- exactly the nodes in use, which are ordered and irredundant.
structure Sound (store : Store) : Prop where
  counted : store.counts.size = store.arena.size
  zero : store.arena[0]? = some (.live Node.terminal)
  one : store.arena[1]? = some (.live Node.terminal)
  freeOnce : store.free.Nodup
  freeListed : ∀ f, f ∈ store.free ↔ 2 ≤ f ∧ store.arena[f]? = some .free
  freeUnheld : ∀ f, f ∈ store.free → store.counts[f]? = some 0
  allocated : ∀ f node, store.Tests f node → 0 < node.var ∧ node.var ≤ store.numVars
  irredundant : ∀ f node, store.Tests f node → node.low ≠ node.high
  ordered : ∀ f node, store.Tests f node →
    store.Below node.var node.low ∧ store.Below node.var node.high
  levelled : store.levels.size = store.numVars
  levelVar : ∀ i level, store.levels[i]? = some level → level.var = i + 1
  levelNodes : ∀ i level, store.levels[i]? = some level → ∀ low high f,
    level.find? low high = some f ↔ store.Tests f ⟨i + 1, low, high⟩

theorem tests_node_unique (store : Store) (f : Ref) (a b : Node)
    (left : store.Tests f a) (right : store.Tests f b) : a = b := by
  have same := left.2.symm.trans right.2
  exact Slot.live.inj (Option.some.inj same)

theorem below_live (store : Store) (v : Var) (f : Ref) (below : store.Below v f) : store.Live f := by
  rcases below with small | ⟨node, tests, _⟩
  · exact .inl small
  · exact .inr ⟨node, tests⟩

theorem below_mono (store : Store) (v w : Var) (f : Ref) (above : v ≤ w) (below : store.Below w f) :
    store.Below v f := by
  rcases below with small | ⟨node, tests, less⟩
  · exact .inl small
  · exact .inr ⟨node, tests, Nat.lt_of_le_of_lt above less⟩

theorem live_below (store : Store) (sound : store.Sound) (f : Ref) (live : store.Live f) :
    store.Below 0 f := by
  rcases live with small | ⟨node, tests⟩
  · exact .inl small
  · exact .inr ⟨node, tests, (sound.allocated f node tests).1⟩

theorem below_tests (store : Store) (v : Var) (f : Ref) (node : Node) (below : store.Below v f)
    (tests : store.Tests f node) : v < node.var := by
  rcases below with small | ⟨other, otherTests, less⟩
  · exact absurd tests.1 (Nat.not_le_of_lt (Nat.lt_succ_of_le small))
  · rw [tests_node_unique store f node other tests otherTests]
    exact less

theorem low_live (store : Store) (sound : store.Sound) (f : Ref) (node : Node)
    (tests : store.Tests f node) : store.Live node.low :=
  below_live store node.var node.low (sound.ordered f node tests).1

theorem high_live (store : Store) (sound : store.Sound) (f : Ref) (node : Node)
    (tests : store.Tests f node) : store.Live node.high :=
  below_live store node.var node.high (sound.ordered f node tests).2

theorem tests_level (store : Store) (sound : store.Sound) (v : Var) (positive : 0 < v)
    (bound : v ≤ store.numVars) :
    ∃ level, store.levels[v - 1]? = some level ∧
      ∀ low high f, level.find? low high = some f ↔ store.Tests f ⟨v, low, high⟩ := by
  have inside : v - 1 < store.levels.size := by
    rw [sound.levelled]
    lia
  have at_place : store.levels[v - 1]? = some store.levels[v - 1] := Array.getElem?_eq_getElem inside
  refine ⟨store.levels[v - 1], at_place, ?_⟩
  have nodes := sound.levelNodes (v - 1) _ at_place
  rwa [Nat.sub_add_cancel positive] at nodes

theorem find_tests (store : Store) (sound : store.Sound) (node : Node) (positive : 0 < node.var)
    (bound : node.var ≤ store.numVars) (f : Ref) : store.find? node = some f ↔ store.Tests f node := by
  obtain ⟨level, at_place, nodes⟩ := tests_level store sound node.var positive bound
  simp only [find?, at_place]
  exact nodes node.low node.high f

theorem tests_ref_unique (store : Store) (sound : store.Sound) (node : Node) (f g : Ref)
    (left : store.Tests f node) (right : store.Tests g node) : f = g := by
  obtain ⟨positive, bound⟩ := sound.allocated f node left
  have found := (find_tests store sound node positive bound f).mpr left
  have again := (find_tests store sound node positive bound g).mpr right
  exact Option.some.inj (found.symm.trans again)

theorem node_ok (store : Store) (f : Ref) (node : Node) :
    store.node f = .ok node ↔ store.arena[f]? = some (.live node) := by
  unfold Store.node
  split <;> simp_all

theorem node_tests (store : Store) (f : Ref) (node : Node) (tests : store.Tests f node) :
    store.node f = .ok node := (node_ok store f node).mpr tests.2

theorem node_live (store : Store) (f : Ref) (large : 2 ≤ f) (node : Node)
    (read : store.node f = .ok node) : store.Tests f node :=
  ⟨large, (node_ok store f node).mp read⟩

theorem depth_terminal (store : Store) (f : Ref) (small : f ≤ 1) :
    store.depth f = .ok (store.numVars + 1) := by
  simp [depth, small]

theorem depth_tests (store : Store) (f : Ref) (node : Node) (tests : store.Tests f node) :
    store.depth f = .ok node.var := by
  simp [depth, varOf, tests.1, node_tests store f node tests]

theorem depth_cases (store : Store) (f : Ref) (d : Nat) (read : store.depth f = .ok d) :
    (f ≤ 1 ∧ d = store.numVars + 1) ∨ ∃ low high, store.Tests f ⟨d, low, high⟩ := by
  rcases Ref.terminal_or f with small | large
  · rw [depth_terminal store f small] at read
    exact .inl ⟨small, (Except.ok.inj read).symm⟩
  · simp only [depth, varOf, Ref.terminal_false f large, Bool.false_eq_true, if_false] at read
    cases reading : store.node f with
    | error fault => simp [reading] at read
    | ok node =>
        have same : node.var = d := by simpa [reading] using read
        subst same
        exact .inr ⟨node.low, node.high, node_live store f large node reading⟩

theorem depth_live (store : Store) (f : Ref) (live : store.Live f) : ∃ d, store.depth f = .ok d := by
  rcases live with small | ⟨node, tests⟩
  · exact ⟨_, depth_terminal store f small⟩
  · exact ⟨_, depth_tests store f node tests⟩

def Heads (store : Store) (v : Var) (f : Ref) : Prop := ∃ low high, store.Tests f ⟨v, low, high⟩

-- The halves of f at a variable that it does not test below its root.
def Splits (store : Store) (v : Var) (f low high : Ref) : Prop :=
  (store.Below v f ∧ low = f ∧ high = f) ∨ store.Tests f ⟨v, low, high⟩

theorem splits_live (store : Store) (v : Var) (f low high : Ref) (splits : store.Splits v f low high) :
    store.Live f := by
  rcases splits with ⟨below, _, _⟩ | tests
  · exact below_live store v f below
  · exact .inr ⟨_, tests⟩

theorem splits_below (store : Store) (sound : store.Sound) (v : Var) (f low high : Ref)
    (splits : store.Splits v f low high) : store.Below v low ∧ store.Below v high := by
  rcases splits with ⟨below, rfl, rfl⟩ | tests
  · exact ⟨below, below⟩
  · exact sound.ordered f _ tests

theorem splits_unique (store : Store) (v : Var) (f low high otherLow otherHigh : Ref)
    (left : store.Splits v f low high) (right : store.Splits v f otherLow otherHigh) :
    low = otherLow ∧ high = otherHigh := by
  rcases left with ⟨below, rfl, rfl⟩ | tests <;> rcases right with ⟨otherBelow, rfl, rfl⟩ | otherTests
  · exact ⟨rfl, rfl⟩
  · exact absurd (below_tests store v _ _ below otherTests) (Nat.lt_irrefl v)
  · exact absurd (below_tests store v _ _ otherBelow tests) (Nat.lt_irrefl v)
  · have same := tests_node_unique store f _ _ tests otherTests
    simpa using same

theorem heads_splits (store : Store) (v w : Var) (f low high : Ref) (heads : store.Heads w f)
    (splits : store.Splits v f low high) : v ≤ w := by
  obtain ⟨otherLow, otherHigh, tests⟩ := heads
  rcases splits with ⟨below, _, _⟩ | direct
  · exact Nat.le_of_lt (below_tests store v f _ below tests)
  · have same := tests_node_unique store f _ _ direct tests
    exact Nat.le_of_eq (congrArg Node.var same)

theorem cofactors_splits (store : Store) (f : Ref) (d v : Nat) (read : store.depth f = .ok d)
    (above : v ≤ d) :
    ∃ low high, store.cofactors f v = .ok (low, high) ∧ store.Splits v f low high := by
  rcases depth_cases store f d read with ⟨small, _⟩ | ⟨low, high, tests⟩
  · exact ⟨f, f, by simp [cofactors, small], .inl ⟨.inl small, rfl, rfl⟩⟩
  · have reading := node_tests store f _ tests
    by_cases less : v < d
    · refine ⟨f, f, ?_, .inl ⟨.inr ⟨_, tests, less⟩, rfl, rfl⟩⟩
      simp [cofactors, tests.1, reading, less]
    · have same : v = d := Nat.le_antisymm above (Nat.le_of_not_lt less)
      subst same
      refine ⟨low, high, ?_, .inr tests⟩
      simp [cofactors, tests.1, reading]

theorem splits_cofactors (store : Store) (v : Var) (f low high : Ref)
    (splits : store.Splits v f low high) : store.cofactors f v = .ok (low, high) := by
  rcases splits with ⟨small | ⟨node, tests, less⟩, rfl, rfl⟩ | tests
  · simp [cofactors, small]
  · simp [cofactors, tests.1, node_tests store _ node tests, less]
  · simp [cofactors, tests.1, node_tests store f _ tests]

@[simp] theorem check_below (store : Store) (v : Var) (f : Ref) :
    store.checkBelow v f = .ok () ↔ store.Below v f := by
  rcases Ref.terminal_or f with small | large
  · simp [checkBelow, topVar, Below, small]
  · constructor
    · intro passed
      simp only [checkBelow, topVar, Ref.terminal_false f large, Bool.false_eq_true, if_false] at passed
      cases reading : store.node f with
      | error fault => simp [reading] at passed
      | ok node =>
          by_cases less : v < node.var
          · exact .inr ⟨node, node_live store f large node reading, less⟩
          · simp [reading, less] at passed
    · rintro (small | ⟨node, tests, less⟩)
      · exact absurd large (Nat.not_le_of_lt (Nat.lt_succ_of_le small))
      · simp [checkBelow, topVar, large, node_tests store f node tests, less]

end Store

end DomainDiagram
