import DomainDiagram.Proofs.Settled
import DomainDiagram.Quantify

set_option autoImplicit false

namespace DomainDiagram

-- Joins the values that a function takes when the listed variables are given
-- every combination of values.
def Quantifier.across (q : Quantifier) : List Var → ((Var → Bool) → Bool) → (Var → Bool) → Bool
  | [], fn, env => fn env
  | v :: rest, fn, env =>
      q.connective.eval (q.across rest fn (Function.update env v false))
        (q.across rest fn (Function.update env v true))

namespace Quantifier

theorem join_same (q : Quantifier) (value : Bool) : q.connective.eval value value = value := by
  cases q <;> cases value <;> rfl

theorem across_append (q : Quantifier) (a b : List Var) (fn : (Var → Bool) → Bool) (env : Var → Bool) :
    q.across (a ++ b) fn env = q.across a (fun inner => q.across b fn inner) env := by
  induction a generalizing env with
  | nil => rfl
  | cons v rest ih => simp only [List.cons_append, across, ih]

theorem across_congr (q : Quantifier) (vars : List Var) (fn gn : (Var → Bool) → Bool) (env : Var → Bool)
    (agree : ∀ inner, (∀ w, w ∉ vars → inner w = env w) → fn inner = gn inner) :
    q.across vars fn env = q.across vars gn env := by
  induction vars generalizing env with
  | nil => exact agree env fun w _ => rfl
  | cons v rest ih =>
      have half : ∀ value, q.across rest fn (Function.update env v value) =
          q.across rest gn (Function.update env v value) := by
        intro value
        refine ih (Function.update env v value) fun inner outside => agree inner fun w fresh => ?_
        have parts : w ≠ v ∧ w ∉ rest := by simpa using fresh
        rw [outside w parts.2, Function.update_of_ne parts.1]
      simp only [across, half]

theorem across_independent (q : Quantifier) (vars : List Var) (fn : (Var → Bool) → Bool) (w : Var)
    (free : ∀ env value, fn (Function.update env w value) = fn env) (env : Var → Bool) (value : Bool) :
    q.across vars fn (Function.update env w value) = q.across vars fn env := by
  induction vars generalizing env with
  | nil => exact free env value
  | cons v rest ih =>
      by_cases same : w = v
      · subst same
        simp only [across, Function.update_idem]
      · have swap : ∀ choice, Function.update (Function.update env w value) v choice =
            Function.update (Function.update env v choice) w value :=
          fun choice => Function.update_comm same value choice env
        simp only [across, swap, ih]

theorem across_unread (q : Quantifier) (vars : List Var) (fn : (Var → Bool) → Bool)
    (free : ∀ w ∈ vars, ∀ env value, fn (Function.update env w value) = fn env) (env : Var → Bool) :
    q.across vars fn env = fn env := by
  induction vars generalizing env with
  | nil => rfl
  | cons v rest ih =>
      have later : ∀ w ∈ rest, ∀ env value, fn (Function.update env w value) = fn env :=
        fun w member => free w (List.mem_cons_of_mem v member)
      rw [across, ih later, ih later, free v List.mem_cons_self, free v List.mem_cons_self, join_same]

end Quantifier

namespace Store

inductive Members (store : Store) : Ref → List Var → Prop where
  | nil (set : Ref) (small : set ≤ 1) : Members store set []
  | cons (set : Ref) (node : Node) (rest : List Var) (tests : store.Tests set node)
      (later : Members store node.high rest) : Members store set (node.var :: rest)

theorem members_below (store : Store) (sound : store.Sound) (v : Var) (set : Ref) (vars : List Var)
    (below : store.Below v set) (members : store.Members set vars) : ∀ w ∈ vars, v < w := by
  induction members generalizing v with
  | nil => simp
  | cons set node rest tests _ ih =>
      have first := below_tests store v set node below tests
      have later := ih node.var (sound.ordered set node tests).2
      intro w member
      rcases List.mem_cons.mp member with rfl | further
      · exact first
      · exact Nat.lt_trans first (later w further)

theorem members_exist (store : Store) (sound : store.Sound) (set : Ref) (live : store.Live set) :
    ∃ vars, store.Members set vars := by
  apply live_induction store sound (fun set => ∃ vars, store.Members set vars) _ _ set live
  · exact fun f small => ⟨[], .nil f small⟩
  · rintro f node tests _ ⟨vars, members⟩
    exact ⟨node.var :: vars, .cons f node vars tests members⟩

theorem members_from (store : Store) (sound : store.Sound) (set : Ref) (vars : List Var)
    (members : store.Members set vars) (v fuel : Nat) (below : store.Below v set)
    (inside : v ≤ store.numVars) (enough : store.numVars < v + fuel) :
    store.membersFrom fuel set = .ok vars := by
  induction members generalizing v fuel with
  | nil set small =>
      cases fuel with
      | zero => omega
      | succ fuel => rw [membersFrom, if_pos (Ref.terminal_true set small)]
  | cons set node rest tests _ ih =>
      cases fuel with
      | zero => omega
      | succ fuel =>
          have less := below_tests store v set node below tests
          have bound := (sound.allocated set node tests).2
          have later := ih node.var fuel (sound.ordered set node tests).2 bound (by lia)
          simp [membersFrom, tests.1, node_tests store set node tests, later,
            bind, Except.bind, pure, Except.pure]

theorem members_ok (store : Store) (sound : store.Sound) (set : Ref) (live : store.Live set)
    (vars : List Var) (members : store.Members set vars) : store.members set = .ok vars :=
  members_from store sound set vars members 0 store.steps (live_below store sound set live)
    (Nat.zero_le _) (by simp only [steps]; omega)

inductive Trims (store : Store) (v : Var) : Ref → Ref → Prop where
  | stop (set : Ref) (small : set ≤ 1) : Trims store v set set
  | keep (set : Ref) (node : Node) (tests : store.Tests set node) (after : v ≤ node.var) :
      Trims store v set set
  | drop (set : Ref) (node : Node) (rest : Ref) (tests : store.Tests set node) (before : node.var < v)
      (later : Trims store v node.high rest) : Trims store v set rest

theorem trims_extends (old new : Store) (grown : Extends old new) (v : Var) (set rest : Ref)
    (trims : old.Trims v set rest) : new.Trims v set rest := by
  induction trims with
  | stop set small => exact .stop set small
  | keep set node tests after => exact .keep set node (grown.kept set node tests) after
  | drop set node rest tests before _ ih =>
      exact .drop set node rest (grown.kept set node tests) before ih

theorem trims_unique (store : Store) (v : Var) (set rest other : Ref) (trims : store.Trims v set rest)
    (again : store.Trims v set other) : rest = other := by
  induction trims generalizing other with
  | stop set small =>
      cases again with
      | stop | keep => rfl
      | drop _ _ _ tests => exact absurd tests.1 (Nat.not_le_of_lt (Nat.lt_succ_of_le small))
  | keep set node tests after =>
      cases again with
      | stop | keep => rfl
      | drop _ node' _ otherTests before =>
          rw [tests_node_unique store set node' node otherTests tests] at before
          exact absurd before (Nat.not_lt_of_le after)
  | drop set node rest tests before _ ih =>
      cases again with
      | stop _ small => exact absurd tests.1 (Nat.not_le_of_lt (Nat.lt_succ_of_le small))
      | keep _ node' otherTests after =>
          rw [tests_node_unique store set node' node otherTests tests] at after
          exact absurd before (Nat.not_lt_of_le after)
      | drop _ node' _ otherTests _ later =>
          rw [tests_node_unique store set node' node otherTests tests] at later
          exact ih other later

theorem trims_live (store : Store) (v : Var) (set rest : Ref) (trims : store.Trims v set rest) :
    store.Live rest := by
  induction trims with
  | stop set small => exact .inl small
  | keep set node tests _ => exact .inr ⟨node, tests⟩
  | drop _ _ _ _ _ _ ih => exact ih

theorem trims_again (store : Store) (v : Var) (set rest : Ref) (trims : store.Trims v set rest) :
    store.Trims v rest rest := by
  induction trims with
  | stop set small => exact .stop set small
  | keep set node tests after => exact .keep set node tests after
  | drop _ _ _ _ _ _ ih => exact ih

theorem trims_first (store : Store) (v : Var) (set rest : Ref) (node : Node)
    (trims : store.Trims v set rest) (tests : store.Tests rest node) : v ≤ node.var := by
  induction trims with
  | stop set small => exact absurd tests.1 (Nat.not_le_of_lt (Nat.lt_succ_of_le small))
  | keep set other otherTests after =>
      rw [tests_node_unique store set node other tests otherTests]
      exact after
  | drop _ _ _ _ _ _ ih => exact ih tests

theorem trims_from (store : Store) (sound : store.Sound) (v w fuel : Nat) (set : Ref)
    (below : store.Below w set) (inside : w ≤ store.numVars) (enough : store.numVars < w + fuel) :
    ∃ rest, store.dropAboveFrom v fuel set = .ok rest ∧ store.Trims v set rest := by
  induction fuel generalizing w set with
  | zero => omega
  | succ fuel ih =>
      rcases below with small | ⟨node, tests, less⟩
      · exact ⟨set, by simp [dropAboveFrom, small], .stop set small⟩
      · have bound := (sound.allocated set node tests).2
        by_cases before : node.var < v
        · obtain ⟨rest, read, trims⟩ := ih node.var node.high (sound.ordered set node tests).2 bound
            (by lia)
          refine ⟨rest, ?_, .drop set node rest tests before trims⟩
          simp [dropAboveFrom, tests.1, node_tests store set node tests, before,
            read, bind, Except.bind]
        · refine ⟨set, ?_, .keep set node tests (Nat.le_of_not_lt before)⟩
          simp [dropAboveFrom, tests.1, node_tests store set node tests, before,
            bind, Except.bind, pure, Except.pure]

theorem trims_ok (store : Store) (sound : store.Sound) (v : Var) (set : Ref) (live : store.Live set) :
    ∃ rest, store.dropAbove v set = .ok rest ∧ store.Trims v set rest :=
  trims_from store sound v 0 store.steps set (live_below store sound set live) (Nat.zero_le _)
    (by simp only [steps]; omega)

theorem trims_read (store : Store) (sound : store.Sound) (v : Var) (set rest : Ref)
    (trims : store.Trims v set rest) : store.dropAbove v set = .ok rest := by
  have live : store.Live set := by
    cases trims with
    | stop _ small => exact .inl small
    | keep _ node tests _ => exact .inr ⟨node, tests⟩
    | drop _ node _ tests _ _ => exact .inr ⟨node, tests⟩
  obtain ⟨other, read, again⟩ := trims_ok store sound v set live
  rw [read, trims_unique store v set rest other trims again]

theorem drop_dead (store : Store) (v : Var) (set : Ref) (dead : ¬ store.Live set) :
    ∃ fault, store.dropAbove v set = .error fault := by
  have large : 2 ≤ set := by
    rcases Ref.terminal_or set with small | large
    · exact absurd (.inl small) dead
    · exact large
  cases read : store.node set with
  | ok node => exact absurd (.inr ⟨node, node_live store set large node read⟩) dead
  | error fault =>
      refine ⟨fault, ?_⟩
      simp [dropAbove, steps, dropAboveFrom, large, read, bind, Except.bind]

theorem trims_members (store : Store) (v : Var) (set rest : Ref) (trims : store.Trims v set rest)
    (vars : List Var) (members : store.Members set vars) :
    ∃ above below, vars = above ++ below ∧ store.Members rest below ∧ ∀ w ∈ above, w < v := by
  induction trims generalizing vars with
  | stop set _ => exact ⟨[], vars, rfl, members, by simp⟩
  | keep set _ _ _ => exact ⟨[], vars, rfl, members, by simp⟩
  | drop set node rest tests before _ ih =>
      cases members with
      | nil _ small => exact absurd tests.1 (Nat.not_le_of_lt (Nat.lt_succ_of_le small))
      | cons _ other later otherTests lower =>
          obtain rfl := tests_node_unique store set node other tests otherTests
          obtain ⟨above, below, rfl, kept, small⟩ := ih later lower
          refine ⟨node.var :: above, below, rfl, kept, ?_⟩
          intro w member
          rcases List.mem_cons.mp member with rfl | further
          · exact before
          · exact small w further

inductive Quantifies (store : Store) (q : Quantifier) : Ref → Ref → Ref → Prop where
  | terminal (f set : Ref) (small : f ≤ 1) : Quantifies store q f set f
  | untouched (f set : Ref) (node : Node) (rest : Ref) (tests : store.Tests f node)
      (trims : store.Trims node.var set rest) (small : rest ≤ 1) : Quantifies store q f set f
  | member (f set r : Ref) (node : Node) (rest : Ref) (head : Node) (low high : Ref)
      (tests : store.Tests f node) (trims : store.Trims node.var set rest)
      (setTests : store.Tests rest head) (bound : head.var = node.var)
      (lowHalf : Quantifies store q node.low head.high low)
      (highHalf : Quantifies store q node.high head.high high)
      (joined : store.Combines q.connective low high r) : Quantifies store q f set r
  | skipped (f set r : Ref) (node : Node) (rest : Ref) (head : Node) (low high : Ref)
      (tests : store.Tests f node) (trims : store.Trims node.var set rest)
      (setTests : store.Tests rest head) (other : head.var ≠ node.var)
      (lowHalf : Quantifies store q node.low rest low)
      (highHalf : Quantifies store q node.high rest high)
      (made : store.Made node.var low high r) : Quantifies store q f set r

theorem quantifies_extends (old new : Store) (grown : Extends old new) (q : Quantifier) (f set r : Ref)
    (settled : old.Quantifies q f set r) : new.Quantifies q f set r := by
  induction settled with
  | terminal f set small => exact .terminal f set small
  | untouched f set node rest tests trims small =>
      exact .untouched f set node rest (grown.kept f node tests)
        (trims_extends old new grown node.var set rest trims) small
  | member f set r node rest head low high tests trims setTests bound _ _ joined lowIH highIH =>
      exact .member f set r node rest head low high (grown.kept f node tests)
        (trims_extends old new grown node.var set rest trims) (grown.kept rest head setTests) bound
        lowIH highIH (combines_extends old new grown q.connective low high r joined)
  | skipped f set r node rest head low high tests trims setTests other _ _ made lowIH highIH =>
      exact .skipped f set r node rest head low high (grown.kept f node tests)
        (trims_extends old new grown node.var set rest trims) (grown.kept rest head setTests) other
        lowIH highIH (made_extends old new grown node.var low high r made)

-- The members above f play no part, so they may be dropped beforehand.
theorem quantifies_trims (store : Store) (q : Quantifier) (f set r : Ref) (node : Node) (rest : Ref)
    (tests : store.Tests f node) (trims : store.Trims node.var set rest)
    (settled : store.Quantifies q f rest r) : store.Quantifies q f set r := by
  have again := trims_again store node.var set rest trims
  cases settled with
  | terminal _ _ small => exact .terminal f set small
  | untouched _ _ other tail otherTests otherTrims small =>
      obtain rfl := tests_node_unique store f node other tests otherTests
      obtain rfl := trims_unique store node.var rest rest tail again otherTrims
      exact .untouched f set node rest tests trims small
  | member _ _ _ other tail head low high otherTests otherTrims setTests bound lowHalf highHalf joined =>
      obtain rfl := tests_node_unique store f node other tests otherTests
      obtain rfl := trims_unique store node.var rest rest tail again otherTrims
      exact .member f set r node rest head low high tests trims setTests bound lowHalf highHalf joined
  | skipped _ _ _ other tail head low high otherTests otherTrims setTests different lowHalf highHalf made =>
      obtain rfl := tests_node_unique store f node other tests otherTests
      obtain rfl := trims_unique store node.var rest rest tail again otherTrims
      exact .skipped f set r node rest head low high tests trims setTests different lowHalf highHalf made

theorem quantifies_unique (store : Store) (sound : store.Sound) (q : Quantifier) (f set r s : Ref)
    (settled : store.Quantifies q f set r) (again : store.Quantifies q f set s) : r = s := by
  induction settled generalizing s with
  | terminal f set small =>
      cases again with
      | terminal | untouched => rfl
      | member _ _ _ _ _ _ _ _ tests | skipped _ _ _ _ _ _ _ _ tests =>
          exact absurd tests.1 (Nat.not_le_of_lt (Nat.lt_succ_of_le small))
  | untouched f set node rest tests trims small =>
      cases again with
      | terminal | untouched => rfl
      | member _ _ _ other tail _ _ _ otherTests otherTrims setTests
      | skipped _ _ _ other tail _ _ _ otherTests otherTrims setTests =>
          obtain rfl := tests_node_unique store f node other tests otherTests
          obtain rfl := trims_unique store node.var set rest tail trims otherTrims
          exact absurd setTests.1 (Nat.not_le_of_lt (Nat.lt_succ_of_le small))
  | member f set r node rest head low high tests trims setTests bound _ _ joined lowIH highIH =>
      cases again with
      | terminal _ _ small => exact absurd tests.1 (Nat.not_le_of_lt (Nat.lt_succ_of_le small))
      | untouched _ _ other tail otherTests otherTrims small =>
          obtain rfl := tests_node_unique store f node other tests otherTests
          obtain rfl := trims_unique store node.var set rest tail trims otherTrims
          exact absurd setTests.1 (Nat.not_le_of_lt (Nat.lt_succ_of_le small))
      | member _ _ _ other tail head' a b otherTests otherTrims setTests' _ otherLow otherHigh otherJoined =>
          obtain rfl := tests_node_unique store f node other tests otherTests
          obtain rfl := trims_unique store node.var set rest tail trims otherTrims
          obtain rfl := tests_node_unique store rest head head' setTests setTests'
          rw [← lowIH a otherLow, ← highIH b otherHigh] at otherJoined
          exact combines_unique store sound q.connective low high r s joined otherJoined
      | skipped _ _ _ other tail head' _ _ otherTests otherTrims setTests' different =>
          obtain rfl := tests_node_unique store f node other tests otherTests
          obtain rfl := trims_unique store node.var set rest tail trims otherTrims
          obtain rfl := tests_node_unique store rest head head' setTests setTests'
          exact absurd bound different
  | skipped f set r node rest head low high tests trims setTests different _ _ made lowIH highIH =>
      cases again with
      | terminal _ _ small => exact absurd tests.1 (Nat.not_le_of_lt (Nat.lt_succ_of_le small))
      | untouched _ _ other tail otherTests otherTrims small =>
          obtain rfl := tests_node_unique store f node other tests otherTests
          obtain rfl := trims_unique store node.var set rest tail trims otherTrims
          exact absurd setTests.1 (Nat.not_le_of_lt (Nat.lt_succ_of_le small))
      | member _ _ _ other tail head' _ _ otherTests otherTrims setTests' bound =>
          obtain rfl := tests_node_unique store f node other tests otherTests
          obtain rfl := trims_unique store node.var set rest tail trims otherTrims
          obtain rfl := tests_node_unique store rest head head' setTests setTests'
          exact absurd bound different
      | skipped _ _ _ other tail head' a b otherTests otherTrims setTests' _ otherLow otherHigh otherMade =>
          obtain rfl := tests_node_unique store f node other tests otherTests
          obtain rfl := trims_unique store node.var set rest tail trims otherTrims
          obtain rfl := tests_node_unique store rest head head' setTests setTests'
          rw [← lowIH a otherLow, ← highIH b otherHigh] at otherMade
          exact made_unique store sound node.var low high r s made otherMade

theorem quantifies_below (store : Store) (sound : store.Sound) (q : Quantifier) (v : Var)
    (f set r : Ref) (below : store.Below v f) (settled : store.Quantifies q f set r) :
    store.Below v r := by
  induction settled generalizing v with
  | terminal f set small => exact .inl small
  | untouched f set node rest tests trims small => exact below
  | member f set r node rest head low high tests _ _ _ _ _ joined lowIH highIH =>
      have further := below_tests store v f node below tests
      obtain ⟨lowBelow, highBelow⟩ := sound.ordered f node tests
      exact combines_below store sound q.connective v low high r
        (lowIH v (below_mono store v node.var _ (Nat.le_of_lt further) lowBelow))
        (highIH v (below_mono store v node.var _ (Nat.le_of_lt further) highBelow)) joined
  | skipped f set r node rest head low high tests _ _ _ _ _ made lowIH highIH =>
      have further := below_tests store v f node below tests
      have lowBelow := lowIH node.var (sound.ordered f node tests).1
      exact made_below store node.var v low high r further
        (below_mono store v node.var low (Nat.le_of_lt further) lowBelow) made

theorem across_terminal (store : Store) (q : Quantifier) (vars : List Var) (f : Ref) (small : f ≤ 1)
    (env : Var → Bool) : q.across vars (store.eval f) env = store.eval f env := by
  refine q.across_unread vars (store.eval f) (fun w _ inner value => ?_) env
  rw [eval_terminal store _ f small, eval_terminal store inner f small]

theorem across_above (store : Store) (sound : store.Sound) (q : Quantifier) (f : Ref) (node : Node)
    (tests : store.Tests f node) (above below : List Var) (small : ∀ w ∈ above, w < node.var)
    (env : Var → Bool) :
    q.across (above ++ below) (store.eval f) env = q.across below (store.eval f) env := by
  rw [Quantifier.across_append]
  refine q.across_unread above (fun inner => q.across below (store.eval f) inner) (fun w member => ?_) env
  refine q.across_independent below (store.eval f) w (fun inner value => ?_)
  exact eval_update store sound inner w value f (.inr ⟨node, tests, small w member⟩)

theorem across_half (store : Store) (sound : store.Sound) (q : Quantifier) (f : Ref) (node : Node)
    (tests : store.Tests f node) (vars : List Var) (fresh : node.var ∉ vars) (env : Var → Bool) :
    q.across vars (store.eval f) env =
      q.across vars (store.eval (if env node.var then node.high else node.low)) env := by
  refine q.across_congr vars _ _ env (fun inner outside => ?_)
  rw [eval_tests store sound inner f node tests, outside node.var fresh]
  cases env node.var <;> rfl

theorem quantifies_eval (store : Store) (sound : store.Sound) (q : Quantifier) (f set r : Ref)
    (settled : store.Quantifies q f set r) (vars : List Var) (members : store.Members set vars)
    (env : Var → Bool) : store.eval r env = q.across vars (store.eval f) env := by
  induction settled generalizing vars env with
  | terminal f set small => exact (across_terminal store q vars f small env).symm
  | untouched f set node rest tests trims small =>
      obtain ⟨above, below, rfl, kept, before⟩ := trims_members store node.var set rest trims vars members
      cases kept with
      | nil => exact (across_above store sound q f node tests above [] before env).symm
      | cons _ _ _ setTests => exact absurd setTests.1 (Nat.not_le_of_lt (Nat.lt_succ_of_le small))
  | member f set r node rest head low high tests trims setTests bound _ _ joined lowIH highIH =>
      obtain ⟨above, below, rfl, kept, before⟩ := trims_members store node.var set rest trims vars members
      cases kept with
      | nil _ small => exact absurd setTests.1 (Nat.not_le_of_lt (Nat.lt_succ_of_le small))
      | cons _ other later otherTests lower =>
          obtain rfl := tests_node_unique store rest head other setTests otherTests
          have after := members_below store sound head.var head.high later
            (sound.ordered rest head setTests).2 lower
          have fresh : node.var ∉ later := fun member =>
            absurd (after node.var member) (by rw [bound]; exact Nat.lt_irrefl _)
          obtain ⟨lowBelow, highBelow⟩ := sound.ordered f node tests
          have drop : ∀ g value, store.Below node.var g →
              q.across later (store.eval g) (Function.update env node.var value) =
                q.across later (store.eval g) env := fun g value below =>
            q.across_independent later (store.eval g) node.var
              (fun inner choice => eval_update store sound inner node.var choice g below) env value
          rw [across_above store sound q f node tests above _ before env, combines_eval store sound
            q.connective low high r joined env, lowIH later lower env, highIH later lower env]
          simp only [bound, Quantifier.across, across_half store sound q f node tests later fresh,
            Function.update_self, if_true, Bool.false_eq_true, if_false]
          rw [drop _ _ lowBelow, drop _ _ highBelow]
  | skipped f set r node rest head low high tests trims setTests other _ _ made lowIH highIH =>
      obtain ⟨above, below, rfl, kept, before⟩ := trims_members store node.var set rest trims vars members
      have after : node.var < head.var :=
        Nat.lt_of_le_of_ne (trims_first store node.var set rest head trims setTests) (Ne.symm other)
      have further := members_below store sound node.var rest below (.inr ⟨head, setTests, after⟩) kept
      have fresh : node.var ∉ below := fun member =>
        absurd (further node.var member) (Nat.lt_irrefl _)
      rw [across_above store sound q f node tests above below before env,
        across_half store sound q f node tests below fresh env,
        eval_made store sound env node.var r low high made, lowIH below kept env, highIH below kept env]
      cases env node.var <;> rfl

end Store
end DomainDiagram
