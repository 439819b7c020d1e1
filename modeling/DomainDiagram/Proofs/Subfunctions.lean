import DomainDiagram.Proofs.Counting
import DomainDiagram.Proofs.Support
import Mathlib.Algebra.BigOperators.Ring.Finset

set_option autoImplicit false

namespace DomainDiagram

-- The function that is left when every variable before v has a fixed value.
def fixed (fn : (Var → Bool) → Bool) (v : Var) (values : Var → Bool) : (Var → Bool) → Bool := fun env =>
  fn fun w => if w < v then values w else env w

def subfunctions (fn : (Var → Bool) → Bool) (v : Var) : Set ((Var → Bool) → Bool) :=
  {gn | (∃ values, gn = fixed fn v values) ∧ ∃ env, gn (Function.update env v (!env v)) ≠ gn env}

theorem fixed_update (fn : (Var → Bool) → Bool) (v w : Var) (before : w < v) (values env : Var → Bool)
    (choice : Bool) : fixed fn v (Function.update values w choice) env =
      fn (Function.update (fun u => if u < v then values u else env u) w choice) := by
  refine congrArg fn (funext fun u => ?_)
  by_cases same : u = w
  · subst same
    rw [if_pos before, Function.update_self, Function.update_self]
  · rw [Function.update_of_ne same, Function.update_of_ne same]

namespace Store

def Starts (store : Store) (v : Var) (f : Ref) : Prop := f ≤ 1 ∨ ∃ node, store.Tests f node ∧ v ≤ node.var

def testing (store : Store) (f : Ref) (v : Var) : Set Ref :=
  {g | store.Reaches f g ∧ ∃ node, store.Tests g node ∧ node.var = v}

theorem fixed_starts (store : Store) (sound : store.Sound) (v : Var) (f : Ref) (starts : store.Starts v f)
    (values : Var → Bool) : fixed (store.eval f) v values = store.eval f := by
  funext env
  cases v with
  | zero => simp [fixed]
  | succ u =>
      have below : store.Below u f := starts.imp_right fun ⟨node, tests, late⟩ => ⟨node, tests, late⟩
      exact eval_agree store sound _ env u f below fun w after => if_neg (by lia)

theorem fixed_child (store : Store) (sound : store.Sound) (f : Ref) (node : Node) (tests : store.Tests f node)
    (v : Var) (before : node.var < v) (values : Var → Bool) (choice : Bool) :
    fixed (store.eval (if choice then node.high else node.low)) v values =
      fixed (store.eval f) v (Function.update values node.var choice) := by
  funext env
  rw [fixed_update _ v node.var before, eval_chosen sound tests]
  rfl

theorem live_node (store : Store) (sound : store.Sound) (f : Ref) (live : store.Live f) :
    ∃ node, store.node f = .ok node ∧ node.var ≤ store.numVars ∧ (node.var = 0 ↔ f ≤ 1) := by
  rcases live with small | ⟨node, tests⟩
  · refine ⟨.terminal, ?_, Nat.zero_le _, fun _ => small, fun _ => rfl⟩
    rcases Ref.terminal_cases f small with rfl | rfl
    · exact (node_ok store 0 .terminal).mpr sound.zero
    · exact (node_ok store 1 .terminal).mpr sound.one
  · obtain ⟨positive, bound⟩ := sound.allocated f node tests
    have large := tests.1
    exact ⟨node, node_tests store f node tests, bound, by lia⟩

theorem reaches_live (store : Store) (sound : store.Sound) (f g : Ref) (live : store.Live f)
    (reach : store.Reaches f g) : store.Live g := by
  induction reach with
  | here => exact live
  | low f g node tests _ ih => exact ih (low_live store sound f node tests)
  | high f g node tests _ ih => exact ih (high_live store sound f node tests)

theorem reaches_below (store : Store) (sound : store.Sound) (v : Var) (f g : Ref) (below : store.Below v f)
    (reach : store.Reaches f g) : store.Below v g := by
  induction reach with
  | here => exact below
  | low f g node tests _ ih =>
      have less := below_tests store v f node below tests
      exact ih (below_mono store v node.var node.low (Nat.le_of_lt less) (sound.ordered f node tests).1)
  | high f g node tests _ ih =>
      have less := below_tests store v f node below tests
      exact ih (below_mono store v node.var node.high (Nat.le_of_lt less) (sound.ordered f node tests).2)

theorem reaches_fixed (store : Store) (sound : store.Sound) (f g : Ref) (node : Node) (tests : store.Tests g node)
    (reach : store.Reaches f g) : ∃ values, store.eval g = fixed (store.eval f) node.var values := by
  induction reach with
  | here f => exact ⟨fun _ => false, (fixed_starts store sound node.var f (.inr ⟨node, tests, Nat.le_refl _⟩) _).symm⟩
  | low f g parent above reach ih =>
      have below := reaches_below store sound parent.var parent.low g (sound.ordered f parent above).1 reach
      have before := below_tests store parent.var g node below tests
      obtain ⟨values, left⟩ := ih tests
      exact ⟨_, left.trans (fixed_child store sound f parent above node.var before values false)⟩
  | high f g parent above reach ih =>
      have below := reaches_below store sound parent.var parent.high g (sound.ordered f parent above).2 reach
      have before := below_tests store parent.var g node below tests
      obtain ⟨values, left⟩ := ih tests
      exact ⟨_, left.trans (fixed_child store sound f parent above node.var before values true)⟩

theorem fixed_reached (store : Store) (sound : store.Sound) (v : Var) (values : Var → Bool) (f : Ref)
    (live : store.Live f) :
    ∃ g, store.Reaches f g ∧ store.Starts v g ∧ store.eval g = fixed (store.eval f) v values := by
  refine live_induction store sound (fun f => ∃ g, store.Reaches f g ∧ store.Starts v g ∧
    store.eval g = fixed (store.eval f) v values) ?_ ?_ f live
  · exact fun f small => ⟨f, .here f, .inl small, (fixed_starts store sound v f (.inl small) values).symm⟩
  · intro f node tests low high
    by_cases before : node.var < v
    · have chosen := fixed_child store sound f node tests v before values (values node.var)
      rw [Function.update_eq_self] at chosen
      cases value : values node.var with
      | false =>
          obtain ⟨g, reach, starts, left⟩ := low
          rw [value] at chosen
          exact ⟨g, .low f g node tests reach, starts, left.trans chosen⟩
      | true =>
          obtain ⟨g, reach, starts, left⟩ := high
          rw [value] at chosen
          exact ⟨g, .high f g node tests reach, starts, left.trans chosen⟩
    · have starts : store.Starts v f := .inr ⟨node, tests, Nat.le_of_not_lt before⟩
      exact ⟨f, .here f, starts, (fixed_starts store sound v f starts values).symm⟩

theorem starts_depends (store : Store) (sound : store.Sound) (v : Var) (f : Ref) (starts : store.Starts v f)
    (depends : store.Depends f v) : ∃ node, store.Tests f node ∧ node.var = v := by
  rcases starts with small | ⟨node, tests, late⟩
  · exact absurd depends (depends_terminal store f small v)
  · have least := ((top_least store sound f node tests node.var).mp rfl).2 v depends
    exact ⟨node, tests, Nat.le_antisymm least late⟩

-- The nodes of f that test v are in use for one each of the functions that
-- are left when the variables before v are fixed and that v can change.
theorem testing_subfunctions (store : Store) (sound : store.Sound) (f : Ref) (live : store.Live f) (v : Var) :
    Set.BijOn store.eval (store.testing f v) (subfunctions (store.eval f) v) := by
  refine ⟨?_, ?_, ?_⟩
  · rintro g ⟨reach, node, tests, rfl⟩
    exact ⟨reaches_fixed store sound f g node tests reach, depends_here sound tests⟩
  · rintro g ⟨gReach, _⟩ h ⟨hReach, _⟩ same
    exact (eval_injective store sound g h (reaches_live store sound f g live gReach)
      (reaches_live store sound f h live hReach)).mp (congrFun same)
  · rintro gn ⟨⟨values, rfl⟩, varies⟩
    obtain ⟨g, reach, starts, left⟩ := fixed_reached store sound v values f live
    rw [← left] at varies
    exact ⟨g, ⟨reach, starts_depends store sound v g starts varies⟩, left⟩

theorem reaches_terminals (store : Store) (sound : store.Sound) (f : Ref) (live : store.Live f) (decision : 2 ≤ f) :
    store.Reaches f 0 ∧ store.Reaches f 1 := by
  refine live_induction store sound (fun f => 2 ≤ f → store.Reaches f 0 ∧ store.Reaches f 1) ?_ ?_ f live decision
  · exact fun f small large => absurd large (Nat.not_le_of_lt (Nat.lt_succ_of_le small))
  · intro f node tests low high _
    rcases Ref.terminal_or node.low with lowSmall | lowLarge
    · rcases Ref.terminal_or node.high with highSmall | highLarge
      · -- two terminals that are not the same are both of them
        have differ := sound.irredundant f node tests
        rcases Ref.terminal_cases node.low lowSmall with lowSame | lowSame <;>
          rcases Ref.terminal_cases node.high highSmall with highSame | highSame
        · exact absurd (lowSame.trans highSame.symm) differ
        · exact ⟨.low f 0 node tests (lowSame ▸ .here _), .high f 1 node tests (highSame ▸ .here _)⟩
        · exact ⟨.high f 0 node tests (highSame ▸ .here _), .low f 1 node tests (lowSame ▸ .here _)⟩
        · exact absurd (lowSame.trans highSame.symm) differ
      · obtain ⟨zero, one⟩ := high highLarge
        exact ⟨.high f 0 node tests zero, .high f 1 node tests one⟩
    · obtain ⟨zero, one⟩ := low lowLarge
      exact ⟨.low f 0 node tests zero, .low f 1 node tests one⟩

theorem pairs_ok {α β : Type} (look : α → Except Fault β) (items : List α) (each : ∀ a ∈ items, ∃ b, look a = .ok b) :
    ∃ pairs, items.mapM (fun a => (a, ·) <$> look a) = .ok pairs ∧ pairs.map (·.1) = items ∧
      ∀ a b, (a, b) ∈ pairs → look a = .ok b := by
  induction items with
  | nil => exact ⟨[], rfl, rfl, nofun⟩
  | cons a rest ih =>
      obtain ⟨b, first⟩ := each a List.mem_cons_self
      obtain ⟨pairs, read, places, looks⟩ := ih fun c member => each c (List.mem_cons_of_mem a member)
      refine ⟨(a, b) :: pairs, ?_, congrArg (a :: ·) places, fun c d member => ?_⟩
      · rw [List.mapM_cons, first, read]
        rfl
      · rcases List.mem_cons.mp member with same | later
        · obtain ⟨rfl, rfl⟩ := Prod.mk.inj same
          exact first
        · exact looks c d later

structure Enumerates (store : Store) (f : Ref) (nodes : List (Ref × Node)) : Prop where
  once : (nodes.map (·.1)).Nodup
  reached : ∀ g, g ∈ nodes.map (·.1) ↔ store.Reaches f g
  read : ∀ g node, (g, node) ∈ nodes → store.node g = .ok node

theorem diagram_enumerates (store : Store) (sound : store.Sound) (f : Ref) (live : store.Live f) (decision : 2 ≤ f) :
    ∃ nodes, store.diagram [f] = .ok nodes ∧ store.size f = .ok nodes.length ∧ store.Enumerates f nodes := by
  obtain ⟨alive, done, closed, roots, reached⟩ := reach_ok store sound [f] (by simpa using live)
  have each : ∀ g ∈ alive.toList, ∃ node, store.node g = .ok node := by
    intro g member
    have inUse : store.Live g := by
      rcases reached g (Std.TreeSet.mem_toList.mp member) with small | ⟨root, isRoot, reach⟩
      · exact .inl small
      · obtain rfl := List.mem_singleton.mp isRoot
        exact reaches_live store sound root g live reach
    obtain ⟨node, read, _⟩ := live_node store sound g inUse
    exact ⟨node, read⟩
  obtain ⟨nodes, read, places, looks⟩ := pairs_ok store.node alive.toList each
  have length : nodes.length = alive.size := by
    rw [← Std.TreeSet.length_toList, ← places, List.length_map]
  refine ⟨nodes, ?_, ?_, ?_, fun g => ?_, looks⟩
  · simp only [diagram, done, read, bind, Except.bind]
  · simp [size, decision, done, length, Functor.map, Except.map]
  · rw [places]
    exact Std.TreeSet.ordered_toList.imp fun less => Nat.ne_of_lt (Nat.compare_eq_lt.mp less)
  · rw [places, Std.TreeSet.mem_toList]
    constructor
    · intro member
      obtain ⟨zero, one⟩ := reaches_terminals store sound f live decision
      rcases reached g member with small | ⟨root, isRoot, reach⟩
      · rcases Ref.terminal_cases g small with rfl | rfl
        · exact zero
        · exact one
      · obtain rfl := List.mem_singleton.mp isRoot
        exact reach
    · exact fun reach => closed_reaches store alive closed f g reach (roots f List.mem_cons_self)

theorem sum_counts (items : List Nat) (most : Nat) (bound : ∀ a ∈ items, a ≤ most) :
    items.length = items.count 0 + ((List.range' 1 most).map items.count).sum := by
  have all : ∀ a ∈ (items : Multiset Nat), a ∈ (List.range' 0 (most + 1)).toFinset := by
    intro a member
    have small := bound a (Multiset.mem_coe.mp member)
    rw [List.mem_toFinset, List.mem_range'_1]
    lia
  have total := Multiset.sum_count_eq_card all
  rw [List.sum_toFinset _ (List.nodup_range' 1), Multiset.coe_card] at total
  simpa [List.range'_succ] using total.symm

section Enumerates

variable {store : Store} (sound : store.Sound) {f : Ref} (live : store.Live f) (decision : 2 ≤ f)
  {nodes : List (Ref × Node)} (listed : store.Enumerates f nodes)

include listed in
theorem enumerated_count (v : Var) : (nodes.countP (·.2.var == v) : ℕ∞) =
    {g | store.Reaches f g ∧ ∃ node, store.node g = .ok node ∧ node.var = v}.encard := by
  have same : {g | store.Reaches f g ∧ ∃ node, store.node g = .ok node ∧ node.var = v} =
      {g | g ∈ (nodes.filter (·.2.var == v)).map (·.1)} := by
    ext g
    simp only [Set.mem_ofPred_eq, List.mem_map, List.mem_filter, beq_iff_eq]
    constructor
    · rintro ⟨reach, node, read, tested⟩
      obtain ⟨⟨_, other⟩, member, rfl⟩ := List.mem_map.mp ((listed.reached g).mpr reach)
      obtain rfl := Except.ok.inj (read.symm.trans (listed.read _ other member))
      exact ⟨_, ⟨member, tested⟩, rfl⟩
    · rintro ⟨⟨_, node⟩, ⟨member, tested⟩, rfl⟩
      exact ⟨(listed.reached _).mp (List.mem_map_of_mem member), node, listed.read _ node member, tested⟩
  have once : ((nodes.filter (·.2.var == v)).map (·.1)).Nodup := listed.once.sublist (List.filter_sublist.map _)
  rw [same, list_encard _ once, List.length_map, List.countP_eq_length_filter]

include sound live listed in
theorem enumerated_subfunctions (v : Var) (positive : 0 < v) :
    (nodes.countP (·.2.var == v) : ℕ∞) = (subfunctions (store.eval f) v).encard := by
  have testing : {g | store.Reaches f g ∧ ∃ node, store.node g = .ok node ∧ node.var = v} = store.testing f v := by
    ext g
    refine and_congr_right fun reach => ⟨?_, ?_⟩
    · rintro ⟨node, read, rfl⟩
      obtain ⟨other, otherRead, _, terminal⟩ := live_node store sound g (reaches_live store sound f g live reach)
      obtain rfl := Except.ok.inj (read.symm.trans otherRead)
      exact ⟨node, node_live store g (by lia) node read, rfl⟩
    · rintro ⟨node, tests, tested⟩
      exact ⟨node, node_tests store g node tests, tested⟩
  have pairs := testing_subfunctions store sound f live v
  rw [enumerated_count listed, testing, ← pairs.image_eq, pairs.injOn.encard_image]

include sound live decision listed in
theorem enumerated_terminals : nodes.countP (·.2.var == 0) = 2 := by
  have terminals : {g | store.Reaches f g ∧ ∃ node, store.node g = .ok node ∧ node.var = 0} = {0, 1} := by
    obtain ⟨zero, one⟩ := reaches_terminals store sound f live decision
    ext g
    constructor
    · rintro ⟨reach, node, read, tested⟩
      obtain ⟨other, otherRead, _, terminal⟩ := live_node store sound g (reaches_live store sound f g live reach)
      obtain rfl := Except.ok.inj (read.symm.trans otherRead)
      exact Ref.terminal_cases g (terminal.mp tested)
    · rintro (rfl | rfl)
      · exact ⟨zero, .terminal, (node_ok store 0 .terminal).mpr sound.zero, rfl⟩
      · exact ⟨one, .terminal, (node_ok store 1 .terminal).mpr sound.one, rfl⟩
  have counted := enumerated_count listed 0
  rw [terminals, Set.encard_pair Nat.zero_ne_one] at counted
  exact_mod_cast counted

include sound live decision listed in
theorem enumerated_length :
    (nodes.length : ℕ∞) = 2 + (store.allVars.map fun v => (subfunctions (store.eval f) v).encard).sum := by
  have bound : ∀ v ∈ nodes.map (·.2.var), v ≤ store.numVars := by
    intro v member
    obtain ⟨⟨g, node⟩, entry, rfl⟩ := List.mem_map.mp member
    have reach := (listed.reached g).mp (List.mem_map_of_mem entry)
    obtain ⟨other, read, bound, _⟩ := live_node store sound g (reaches_live store sound f g live reach)
    obtain rfl := Except.ok.inj (read.symm.trans (listed.read g node entry))
    exact bound
  have total := sum_counts (nodes.map (·.2.var)) store.numVars bound
  have counts : ∀ v, (nodes.map (·.2.var)).count v = nodes.countP (·.2.var == v) := by
    intro v
    rw [List.count, List.countP_map]
    rfl
  rw [List.length_map, counts, enumerated_terminals sound live decision listed] at total
  have each : (store.allVars.map fun v => (subfunctions (store.eval f) v).encard) =
      store.allVars.map fun v => ((nodes.map (·.2.var)).count v : ℕ∞) := by
    refine List.map_congr_left fun v member => ?_
    rw [counts, enumerated_subfunctions sound live listed v (List.mem_range'_1.mp member).1]
  rw [total, each, Nat.cast_add, Nat.cast_list_sum, List.map_map]
  rfl

end Enumerates

-- The nodes of f, all of them told once: as many test a variable as there are
-- functions that need one, and the size counts what is reached and no more.
structure Minimal (store : Store) (f : Ref) (nodes : List (Ref × Node)) (size : Nat) : Prop where
  listed : store.Enumerates f nodes
  tested : ∀ v, 0 < v → (nodes.countP (·.2.var == v) : ℕ∞) = (subfunctions (store.eval f) v).encard
  zero : store.Reaches f 0
  one : store.Reaches f 1
  total : (size : ℕ∞) = 2 + (store.allVars.map fun v => (subfunctions (store.eval f) v).encard).sum
  exact : (size : ℕ∞) = {g | store.Reaches f g}.encard

theorem live_minimal (store : Store) (sound : store.Sound) (f : Ref) (live : store.Live f) (decision : 2 ≤ f) :
    ∃ nodes size, store.diagram [f] = .ok nodes ∧ store.size f = .ok size ∧ store.Minimal f nodes size := by
  obtain ⟨nodes, read, sized, listed⟩ := diagram_enumerates store sound f live decision
  obtain ⟨zero, one⟩ := reaches_terminals store sound f live decision
  have reached : {g | store.Reaches f g} = {g | g ∈ nodes.map (·.1)} := Set.ext fun g => (listed.reached g).symm
  refine ⟨nodes, nodes.length, read, sized, listed, enumerated_subfunctions sound live listed, zero, one,
    enumerated_length sound live decision listed, ?_⟩
  rw [reached, list_encard _ listed.once, List.length_map]

end Store

namespace Workspace

theorem diagram_told (ws : Workspace) (reachable : ws.Reachable) (m : Nat) (store : Store)
    (found : ws.stores[m]? = some store) (f : Ref) (live : store.Live f) (decision : 2 ≤ f) :
    ∃ nodes size, (ws.look (.ask m (.diagram [f]))).1 = .fact (.ok (.nodes nodes)) ∧
      (ws.look (.ask m (.size f))).1 = .fact (.ok (.amount size)) ∧ store.Minimal f nodes size := by
  obtain ⟨nodes, size, read, sized, minimal⟩ :=
    Store.live_minimal store (reachable_sound ws reachable m store found) f live decision
  refine ⟨nodes, size, ?_, ?_, minimal⟩
  · rw [ask_told ws m _ store found, Store.answer, read, Store.told]
  · rw [ask_told ws m _ store found, Store.answer, sized, Store.told]

-- The parity of three variables: when the first is fixed, the parity of the
-- other two and its negation are left.
theorem parity_minimal :
    ∃ (ws : Workspace) (store : Store),
      ws = empty.run [.newStore {}, .newVars 0 3, .construct 0 (.literal 1 true), .construct 0 (.literal 2 true),
        .construct 0 (.literal 3 true), .construct 0 (.combine .xor 2 3), .construct 0 (.combine .xor 6 4)] ∧
      ws.stores[0]? = some store ∧ store.Live 10 ∧ 2 ≤ 10 ∧
      (ws.look (.ask 0 (.size 10))).1 = .fact (.ok (.amount 7)) ∧
      (∃ nodes, (ws.look (.ask 0 (.diagram [10]))).1 = .fact (.ok (.nodes nodes)) ∧ store.Minimal 10 nodes 7) ∧
      (subfunctions (store.eval 10) 2).encard = 2 := by
  obtain ⟨ws, built⟩ : ∃ ws, ws = empty.run [.newStore {}, .newVars 0 3, .construct 0 (.literal 1 true),
    .construct 0 (.literal 2 true), .construct 0 (.literal 3 true), .construct 0 (.combine .xor 2 3),
    .construct 0 (.combine .xor 6 4)] := ⟨_, rfl⟩
  have known : ws.stores[0]?.any (fun store => decide (store.Live 10 ∧ store.size 10 = .ok 7 ∧
      store.diagram [10] = .ok [(0, ⟨0, 0, 0⟩), (1, ⟨0, 0, 0⟩), (4, ⟨3, 0, 1⟩), (7, ⟨3, 1, 0⟩), (8, ⟨2, 4, 7⟩),
        (9, ⟨2, 7, 4⟩), (10, ⟨1, 8, 9⟩)])) = true := by
    rw [built]
    decide +kernel
  obtain ⟨store, found, known⟩ := (Option.any_eq_true _ _).mp known
  obtain ⟨live, sized, read⟩ := of_decide_eq_true known
  obtain ⟨nodes, size, listed, told, minimal⟩ := diagram_told ws ⟨_, built.symm⟩ 0 store found 10 live (by decide)
  have entries := listed
  have amount := told
  rw [ask_told ws 0 _ store found, Store.answer, read] at entries
  rw [ask_told ws 0 _ store found, Store.answer, sized] at amount
  cases entries
  cases amount
  exact ⟨ws, store, built, found, live, by decide, told, ⟨_, listed, minimal⟩, (minimal.tested 2 (by decide)).symm⟩

end Workspace
end DomainDiagram
