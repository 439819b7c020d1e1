import DomainDiagram.Proofs.Roundtrip
import DomainDiagram.Proofs.Slots

set_option autoImplicit false

namespace DomainDiagram

namespace Store

def Vacant (store : Store) (f : Ref) : Prop := store.arena[f]? = some .free ∨ store.arena.size ≤ f

theorem vacant_live (store : Store) (sound : store.Sound) (f : Ref) : store.Vacant f ↔ ¬ store.Live f := by
  constructor
  · rintro (free | outside) live
    · rcases live with small | ⟨node, tests⟩
      · rcases Ref.terminal_cases f small with rfl | rfl
        · exact nomatch sound.zero.symm.trans free
        · exact nomatch sound.one.symm.trans free
      · exact nomatch tests.2.symm.trans free
    · exact Nat.not_lt_of_le outside (live_inside store sound f live)
  · intro dead
    by_cases inside : f < store.arena.size
    · exact .inl ((sound.freeListed f).mp ((slot_cases store sound f inside).resolve_left dead)).2
    · exact .inr (Nat.le_of_not_lt inside)

-- What stands in the way of the decision "if v then high else low". Children
-- that agree are not looked at, and need not be in use.
def Bars (store : Store) (v : Var) (low high : Ref) : Prop :=
  (v = 0 ∨ store.numVars < v) ∨
    low ≠ high ∧ ∃ child, (child = low ∨ child = high) ∧
      (store.Vacant child ∨ ∃ node, store.Tests child node ∧ node.var ≤ v)

theorem not_below (store : Store) (sound : store.Sound) (v : Var) (f : Ref) :
    ¬ store.Below v f ↔ store.Vacant f ∨ ∃ node, store.Tests f node ∧ node.var ≤ v := by
  rw [vacant_live store sound]
  constructor
  · intro fails
    rw [or_iff_not_imp_left, not_not]
    rintro (small | ⟨node, tests⟩)
    · exact absurd (.inl small) fails
    · exact ⟨node, tests, Nat.le_of_not_lt fun less => fails (.inr ⟨node, tests, less⟩)⟩
  · rintro (dead | ⟨node, tests, above⟩) below
    · exact dead (below_live store v f below)
    · exact Nat.not_lt_of_le above (below_tests store v f node below tests)

theorem bars_admits (store : Store) (sound : store.Sound) (v : Var) (low high : Ref) (different : low ≠ high) :
    store.Bars v low high ↔ ¬ store.Admits v low high := by
  have allocated : (v = 0 ∨ store.numVars < v) ↔ ¬ (0 < v ∧ v ≤ store.numVars) := by lia
  simp only [Bars, ← not_below store sound, Admits, allocated, different, ne_eq, not_false_eq_true, true_and,
    or_and_right, exists_or, exists_eq_left]
  tauto

structure Adds (store : Store) (f : Ref) (node : Node) (next : Store) : Prop where
  vacant : store.Vacant f
  nodes : ∀ g other, next.Tests g other ↔ store.Tests g other ∨ (g = f ∧ other = node)
  amount : next.numNodes = store.numNodes + 1
  entry : ∃ level, store.levels[node.var - 1]? = some level ∧
    next.levels[node.var - 1]? = some (level.insert node.low node.high f) ∧
    (level.insert node.low node.high f).size = level.size + 1
  levels : ∀ i, i ≠ node.var - 1 → next.levels[i]? = store.levels[i]?

theorem level_size_insert (level : Level) (low high f : Ref) (missing : level.find? low high = none) :
    (level.insert low high f).size = level.size + 1 := by
  have absent : level.nodes.contains (low, high) = false := by
    rw [Std.TreeMap.contains_eq_isSome_getElem?, ← Level.find?, missing, Option.isSome_none]
  rw [Level.size, Level.insert, Std.TreeMap.size_insert, absent]
  rfl

theorem place_adds (store : Store) (sound : store.Sound) (node : Node) (fits : store.Placeable node) :
    store.Adds (store.place node).1 node (store.place node).2 := by
  have placed := place_placed store sound node
  have nextSound := placed_sound store _ sound node _ fits placed
  have reuses := uses_reuses store _ sound nextSound _ (.take store node)
  obtain ⟨level, there, _⟩ := tests_level store sound node.var fits.positive fits.bound
  have missing : level.find? node.low node.high = none := by
    simpa only [find?, there] using fits.missing
  constructor
  case vacant => exact (vacant_live store sound _).mpr (reuses.vacant _ (List.mem_singleton_self _)).1
  case nodes => exact placed_tests store _ node _ placed
  case amount => exact reuses.amount
  case entry =>
    refine ⟨level, there, ?_, level_size_insert level _ _ _ missing⟩
    rw [placed.levels, Array.getElem?_modify, if_pos rfl, there]
    rfl
  case levels =>
    intro i other
    rw [placed.levels, Array.getElem?_modify, if_neg (Ne.symm other)]

structure Gives (store : Store) (v : Var) (low high r : Ref) (next : Store) : Prop where
  same : low = high → r = low ∧ next = store
  only : low ≠ high → ∀ f, next.Tests f ⟨v, low, high⟩ ↔ f = r
  known : low ≠ high → (∃ f, store.Tests f ⟨v, low, high⟩) → next = store
  made : low ≠ high → (¬ store.Live r ↔ ∀ f, ¬ store.Tests f ⟨v, low, high⟩)
  adds : low ≠ high → (∀ f, ¬ store.Tests f ⟨v, low, high⟩) → store.Adds r ⟨v, low, high⟩ next

theorem gives_same (store : Store) (v : Var) (f : Ref) : store.Gives v f f f store :=
  ⟨fun _ => ⟨rfl, rfl⟩, fun apart => absurd rfl apart, fun apart => absurd rfl apart, fun apart => absurd rfl apart,
    fun apart => absurd rfl apart⟩

theorem gives_known (store : Store) (sound : store.Sound) (v : Var) (low high f : Ref) (different : low ≠ high)
    (tests : store.Tests f ⟨v, low, high⟩) : store.Gives v low high f store := by
  constructor
  case same => exact fun same => absurd same different
  case only =>
    intro _ g
    constructor
    · exact fun also => tests_ref_unique store sound _ g f also tests
    · rintro rfl
      exact tests
  case known => exact fun _ _ => rfl
  case made => exact fun _ => ⟨fun dead => absurd (.inr ⟨_, tests⟩) dead, fun absent => absurd tests (absent f)⟩
  case adds => exact fun _ absent => absurd tests (absent f)

theorem gives_added (store next : Store) (sound : store.Sound) (v : Var) (low high f : Ref) (different : low ≠ high)
    (absent : ∀ g, ¬ store.Tests g ⟨v, low, high⟩) (adds : store.Adds f ⟨v, low, high⟩ next) :
    store.Gives v low high f next := by
  constructor
  case same => exact fun same => absurd same different
  case only =>
    intro _ g
    rw [adds.nodes, and_iff_left rfl]
    exact or_iff_right (absent g)
  case known => exact fun _ ⟨g, tests⟩ => absurd tests (absent g)
  case made => exact fun _ => iff_of_true ((vacant_live store sound f).mp adds.vacant) absent
  case adds => exact fun _ _ => adds

end Store

namespace Action

open Store

theorem branch_barred (store : Store) (sound : store.Sound) (v : Var) (low high : Ref)
    (bars : store.Bars v low high) : ∃ fault, branch v low high store = .error fault store := by
  rw [branch_run]
  cases checked : store.checkAllocated v with
  | error fault => exact ⟨fault, rfl⟩
  | ok _ =>
      obtain ⟨positive, bound⟩ := (check_allocated store v).mp checked
      have different : low ≠ high := by
        rcases bars with outside | ⟨different, _⟩
        · exact absurd outside (by lia)
        · exact different
      rw [if_neg different]
      cases lowChecked : store.checkBelow v low with
      | error fault => exact ⟨fault, rfl⟩
      | ok _ =>
          cases highChecked : store.checkBelow v high with
          | error fault => exact ⟨fault, rfl⟩
          | ok _ =>
              have admitted : store.Admits v low high :=
                ⟨positive, bound, (check_below store v low).mp lowChecked, (check_below store v high).mp highChecked⟩
              exact absurd admitted ((bars_admits store sound v low high different).mp bars)

theorem branch_same (store : Store) (v : Var) (f : Ref) (positive : 0 < v) (bound : v ≤ store.numVars) :
    branch v f f store = .ok f store := by
  rw [branch_run, (check_allocated store v).mpr ⟨positive, bound⟩, if_pos rfl]

theorem branch_placed (store : Store) (node : Node) (fits : store.Placeable node) :
    branch node.var node.low node.high store = .ok (store.place node).1 (store.place node).2 := by
  rw [branch_run, (check_allocated store node.var).mpr ⟨fits.positive, fits.bound⟩, if_neg fits.different,
    (check_below store _ _).mpr fits.lowBelow, (check_below store _ _).mpr fits.highBelow]
  simp only [fits.missing]

theorem branch_gives (store : Store) (sound : store.Sound) (v : Var) (low high : Ref)
    (clear : ¬ store.Bars v low high) :
    ∃ r next, branch v low high store = .ok r next ∧ store.Gives v low high r next := by
  have allocated : 0 < v ∧ v ≤ store.numVars := by
    have inside := not_or.mp clear |>.1
    lia
  rcases eq_or_ne low high with rfl | different
  · exact ⟨low, store, branch_same store v low allocated.1 allocated.2, gives_same store v low⟩
  · have admitted := not_not.mp (mt (bars_admits store sound v low high different).mpr clear)
    obtain ⟨positive, bound, lowBelow, highBelow⟩ := admitted
    have finds := find_tests store sound ⟨v, low, high⟩ positive bound
    cases found : store.find? ⟨v, low, high⟩ with
    | some f =>
        have tests := (finds f).mp found
        exact ⟨f, store, branch_found store sound f _ tests, gives_known store sound v low high f different tests⟩
    | none =>
        have fits : store.Placeable ⟨v, low, high⟩ := ⟨positive, bound, different, lowBelow, highBelow, found⟩
        have absent : ∀ g, ¬ store.Tests g ⟨v, low, high⟩ := fun g tests =>
          nomatch found.symm.trans ((finds g).mpr tests)
        exact ⟨_, _, branch_placed store _ fits,
          gives_added store _ sound v low high _ different absent (place_adds store sound _ fits)⟩

end Action

-- A call for a decision breaks off, and leaves the store as it was, exactly
-- where something stands in the way.
structure Store.Gated (store : Store) (v : Var) (low high : Ref) : Prop where
  barred : (∃ fault next, Action.branch v low high store = .error fault next) ↔ store.Bars v low high
  unchanged : ∀ fault next, Action.branch v low high store = .error fault next → next = store
  given : ¬ store.Bars v low high →
    ∃ r next, Action.branch v low high store = .ok r next ∧ store.Gives v low high r next

namespace Workspace

open Store DomainDiagram.Action

theorem reachable_gated (ws : Workspace) (reachable : ws.Reachable) (m : Nat) (store : Store)
    (found : ws.stores[m]? = some store) (v : Var) (low high : Ref) : store.Gated v low high := by
  have sound := reachable_sound ws reachable m store found
  have given := branch_gives store sound v low high
  constructor
  case barred =>
    constructor
    · rintro ⟨fault, next, failed⟩
      by_contra clear
      obtain ⟨r, later, done, _⟩ := given clear
      exact nomatch failed.symm.trans done
    · intro bars
      obtain ⟨fault, failed⟩ := branch_barred store sound v low high bars
      exact ⟨fault, store, failed⟩
  case unchanged =>
    intro fault next failed
    have ends := ends_branch store sound v low high
    rw [Ends, failed] at ends
    exact ends.1
  case given => exact given

-- The node for the second variable may stand under the first one, and not under its own.
theorem second_variable_gated :
    ∃ (ws : Workspace) (store : Store),
      ws = empty.run [.newStore {}, .newVars 0 2, .construct 0 (.literal 2 true)] ∧ ws.stores[0]? = some store ∧
      store.Tests 2 ⟨2, 0, 1⟩ ∧ ¬ store.Bars 1 0 2 ∧ store.Gated 1 0 2 ∧ store.Bars 2 0 2 ∧ store.Gated 2 0 2 := by
  have reachable : (empty.run [.newStore {}, .newVars 0 2, .construct 0 (.literal 2 true)]).Reachable := ⟨_, rfl⟩
  obtain ⟨store, found, vars, node⟩ : ∃ store,
      (empty.run [.newStore {}, .newVars 0 2, .construct 0 (.literal 2 true)]).stores[0]? = some store ∧
        store.numVars = 2 ∧ store.arena[2]? = some (.live ⟨2, 0, 1⟩) := ⟨_, rfl, by decide +kernel, by decide +kernel⟩
  have tests : store.Tests 2 ⟨2, 0, 1⟩ := ⟨Nat.le_refl 2, node⟩
  have sound := reachable_sound _ reachable 0 store found
  have admitted : store.Admits 1 0 2 :=
    ⟨Nat.one_pos, by lia, .inl (Nat.zero_le 1), .inr ⟨_, tests, Nat.one_lt_two⟩⟩
  have clear := mt (bars_admits store sound 1 0 2 (by decide)).mp (not_not.mpr admitted)
  have bars : store.Bars 2 0 2 := .inr ⟨by decide, 2, .inr rfl, .inr ⟨_, tests, Nat.le_refl 2⟩⟩
  have gated := reachable_gated _ reachable 0 store found
  exact ⟨_, store, rfl, found, tests, clear, gated 1 0 2, bars, gated 2 0 2⟩

end Workspace
end DomainDiagram
