import DomainDiagram.Proofs.Arena

set_option autoImplicit false

namespace DomainDiagram.Store

-- Requests other than collection lead to such stores.
structure Extends (old new : Store) : Prop where
  vars : old.numVars ≤ new.numVars
  kept : ∀ f node, old.Tests f node → new.Tests f node

theorem extends_refl (store : Store) : Extends store store :=
  ⟨Nat.le_refl _, fun _ _ tests => tests⟩

theorem extends_trans (a b c : Store) (ab : Extends a b) (bc : Extends b c) : Extends a c :=
  ⟨Nat.le_trans ab.vars bc.vars, fun f node tests => bc.kept f node (ab.kept f node tests)⟩

theorem extends_below (old new : Store) (grown : Extends old new) (v : Var) (f : Ref)
    (below : old.Below v f) : new.Below v f := by
  rcases below with small | ⟨node, tests, less⟩
  · exact .inl small
  · exact .inr ⟨node, grown.kept f node tests, less⟩

theorem extends_live (old new : Store) (grown : Extends old new) (f : Ref) (live : old.Live f) :
    new.Live f := by
  rcases live with small | ⟨node, tests⟩
  · exact .inl small
  · exact .inr ⟨node, grown.kept f node tests⟩

theorem extends_heads (old new : Store) (grown : Extends old new) (v : Var) (f : Ref)
    (heads : old.Heads v f) : new.Heads v f := by
  obtain ⟨low, high, tests⟩ := heads
  exact ⟨low, high, grown.kept f _ tests⟩

theorem extends_splits (old new : Store) (grown : Extends old new) (v : Var) (f low high : Ref)
    (splits : old.Splits v f low high) : new.Splits v f low high := by
  rcases splits with ⟨below, lowSame, highSame⟩ | tests
  · exact .inl ⟨extends_below old new grown v f below, lowSame, highSame⟩
  · exact .inr (grown.kept f _ tests)

-- What building functions may do to a store: nodes are added without holds,
-- in free slots from the top of the stack or at the end of the arena.
structure Builds (old new : Store) : Prop where
  id : new.id = old.id
  config : new.config = old.config
  vars : new.numVars = old.numVars
  kept : ∀ f node, old.Tests f node → new.Tests f node
  counts : ∃ added, new.counts = old.counts ++ Array.replicate added 0
  free : ∃ used, old.free = used ++ new.free

theorem builds_refl (store : Store) : Builds store store :=
  ⟨rfl, rfl, rfl, fun _ _ tests => tests, ⟨0, by simp⟩, ⟨[], rfl⟩⟩

theorem builds_trans (a b c : Store) (ab : Builds a b) (bc : Builds b c) : Builds a c := by
  obtain ⟨added, counts⟩ := ab.counts
  obtain ⟨more, moreCounts⟩ := bc.counts
  obtain ⟨used, free⟩ := ab.free
  obtain ⟨further, moreFree⟩ := bc.free
  refine ⟨bc.id.trans ab.id, bc.config.trans ab.config, bc.vars.trans ab.vars,
    fun f node tests => bc.kept f node (ab.kept f node tests), ⟨added + more, ?_⟩, ⟨used ++ further, ?_⟩⟩
  · rw [moreCounts, counts, Array.append_assoc, Array.replicate_append_replicate]
  · rw [free, moreFree, List.append_assoc]

theorem builds_extends (old new : Store) (built : Builds old new) : Extends old new :=
  ⟨Nat.le_of_eq built.vars.symm, built.kept⟩

def Made (store : Store) (v : Var) (low high f : Ref) : Prop :=
  (low = high ∧ f = low) ∨ (low ≠ high ∧ store.Tests f ⟨v, low, high⟩)

theorem made_extends (old new : Store) (grown : Extends old new) (v : Var) (low high f : Ref)
    (made : old.Made v low high f) : new.Made v low high f := by
  rcases made with same | ⟨different, tests⟩
  · exact .inl same
  · exact .inr ⟨different, grown.kept f _ tests⟩

theorem made_unique (store : Store) (sound : store.Sound) (v : Var) (low high f g : Ref)
    (left : store.Made v low high f) (right : store.Made v low high g) : f = g := by
  rcases left with ⟨same, rfl⟩ | ⟨different, tests⟩
  · rcases right with ⟨_, rfl⟩ | ⟨different, _⟩
    · rfl
    · exact absurd same different
  · rcases right with ⟨same, _⟩ | ⟨_, otherTests⟩
    · exact absurd same different
    · exact tests_ref_unique store sound _ f g tests otherTests

theorem made_below (store : Store) (v w : Var) (low high f : Ref) (above : w < v)
    (lowBelow : store.Below w low) (made : store.Made v low high f) : store.Below w f := by
  rcases made with ⟨_, rfl⟩ | ⟨_, tests⟩
  · exact lowBelow
  · exact .inr ⟨_, tests, above⟩

theorem place_free (store : Store) (node : Node) (f : Ref) (rest : List Ref)
    (free : store.free = f :: rest) :
    store.place node = (f, { store with
      free := rest
      arena := store.arena.setIfInBounds f (.live node)
      counts := store.counts.setIfInBounds f 0
      levels := store.levels.modify (node.var - 1) (·.insert node.low node.high f) }) := by
  simp only [place, free]

theorem place_end (store : Store) (node : Node) (free : store.free = []) :
    store.place node = (store.arena.size, { store with
      arena := store.arena.push (.live node)
      counts := store.counts.push 0
      levels := store.levels.modify (node.var - 1) (·.insert node.low node.high store.arena.size) }) := by
  simp only [place, free]

theorem level_find_insert (level : Level) (low high f otherLow otherHigh : Ref) :
    (level.insert low high f).find? otherLow otherHigh =
      if low = otherLow ∧ high = otherHigh then some f else level.find? otherLow otherHigh := by
  simp only [Level.insert, Level.find?, Std.TreeMap.getElem?_insert, Std.LawfulEqCmp.compare_eq_iff_eq,
    Prod.mk.injEq]

-- What a store and the one with a new node at f have in common, wherever the
-- slot for it came from.
theorem placed_levels (store next : Store) (sound : store.Sound) (node : Node) (f : Ref)
    (positive : 0 < node.var) (missing : store.find? node = none)
    (levels : next.levels = store.levels.modify (node.var - 1) (·.insert node.low node.high f))
    (tests : ∀ g other, next.Tests g other ↔ store.Tests g other ∨ (g = f ∧ other = node))
    (i : Nat) (level : Level) (at_place : next.levels[i]? = some level) :
    level.var = i + 1 ∧ ∀ low high g, level.find? low high = some g ↔ next.Tests g ⟨i + 1, low, high⟩ := by
  rw [levels, Array.getElem?_modify] at at_place
  by_cases here : node.var - 1 = i
  · have var : node.var = i + 1 := by lia
    rw [if_pos here] at at_place
    obtain ⟨old, oldPlace, rfl⟩ := Option.map_eq_some_iff.mp at_place
    have oldNodes := sound.levelNodes i old oldPlace
    refine ⟨sound.levelVar i old oldPlace, fun low high g => ?_⟩
    rw [level_find_insert, tests, ← oldNodes]
    by_cases same : node.low = low ∧ node.high = high
    · have absent : old.find? low high = none := by
        simpa only [find?, here, oldPlace, same] using missing
      have equal : (⟨i + 1, low, high⟩ : Node) = node := by
        rw [← var, ← same.1, ← same.2]
      simp [same, absent, equal, eq_comm]
    · have different : (⟨i + 1, low, high⟩ : Node) ≠ node := by
        rintro rfl
        exact same ⟨rfl, rfl⟩
      simp [same, different]
  · rw [if_neg here] at at_place
    refine ⟨sound.levelVar i level at_place, fun low high g => ?_⟩
    have different : (⟨i + 1, low, high⟩ : Node) ≠ node := by
      rintro rfl
      exact here rfl
    rw [sound.levelNodes i level at_place, tests]
    simp [different]

structure Placeable (store : Store) (node : Node) : Prop where
  positive : 0 < node.var
  bound : node.var ≤ store.numVars
  different : node.low ≠ node.high
  lowBelow : store.Below node.var node.low
  highBelow : store.Below node.var node.high
  missing : store.find? node = none

theorem placed_nodes (store next : Store) (sound : store.Sound) (node : Node) (f : Ref)
    (fits : store.Placeable node) (vars : next.numVars = store.numVars)
    (tests : ∀ g other, next.Tests g other ↔ store.Tests g other ∨ (g = f ∧ other = node))
    (g : Ref) (other : Node) (inUse : next.Tests g other) :
    (0 < other.var ∧ other.var ≤ next.numVars) ∧ other.low ≠ other.high ∧
      next.Below other.var other.low ∧ next.Below other.var other.high := by
  have keep : ∀ v h, store.Below v h → next.Below v h := by
    rintro v h (small | ⟨old, oldTests, less⟩)
    · exact .inl small
    · exact .inr ⟨old, (tests h old).mpr (.inl oldTests), less⟩
  rcases (tests g other).mp inUse with old | ⟨rfl, rfl⟩
  · obtain ⟨positive, bound⟩ := sound.allocated g other old
    obtain ⟨low, high⟩ := sound.ordered g other old
    exact ⟨⟨positive, vars ▸ bound⟩, sound.irredundant g other old, keep _ _ low, keep _ _ high⟩
  · exact ⟨⟨fits.positive, vars ▸ fits.bound⟩, fits.different, keep _ _ fits.lowBelow,
      keep _ _ fits.highBelow⟩

structure Placed (store next : Store) (node : Node) (f : Ref) : Prop where
  large : 2 ≤ f
  unused : ∀ old, ¬ store.Tests f old
  here : next.arena[f]? = some (.live node)
  elsewhere : ∀ g : Nat, g ≠ f → next.arena[g]? = store.arena[g]?
  counted : next.counts.size = next.arena.size
  freeOnce : next.free.Nodup
  freed : ∀ g, g ∈ next.free ↔ g ≠ f ∧ g ∈ store.free
  unheld : ∀ g, g ∈ next.free → next.counts[g]? = store.counts[g]?
  levels : next.levels = store.levels.modify (node.var - 1) (·.insert node.low node.high f)
  vars : next.numVars = store.numVars

theorem placed_tests (store next : Store) (node : Node) (f : Ref) (placed : Placed store next node f)
    (g : Ref) (other : Node) : next.Tests g other ↔ store.Tests g other ∨ (g = f ∧ other = node) := by
  by_cases same : g = f
  · subst same
    have unused := placed.unused other
    simp [Tests, placed.here, placed.large, eq_comm] at unused ⊢
    exact fun slot => absurd slot unused
  · simp [Tests, placed.elsewhere g same, same]

theorem placed_sound (store next : Store) (sound : store.Sound) (node : Node) (f : Ref)
    (fits : store.Placeable node) (placed : Placed store next node f) : next.Sound := by
  have tests := placed_tests store next node f placed
  have nodes := placed_nodes store next sound node f fits placed.vars tests
  have levels := placed_levels store next sound node f fits.positive fits.missing placed.levels tests
  have large := placed.large
  constructor
  case counted => exact placed.counted
  case zero => rw [placed.elsewhere 0 (by lia)]; exact sound.zero
  case one => rw [placed.elsewhere 1 (by lia)]; exact sound.one
  case freeOnce => exact placed.freeOnce
  case freeListed =>
    intro g
    rw [placed.freed]
    by_cases same : g = f
    · subst same
      simp [placed.here]
    · rw [placed.elsewhere g same, sound.freeListed]
      simp [same]
  case freeUnheld =>
    intro g member
    rw [placed.unheld g member]
    exact sound.freeUnheld g ((placed.freed g).mp member).2
  case allocated => exact fun g other inUse => (nodes g other inUse).1
  case irredundant => exact fun g other inUse => (nodes g other inUse).2.1
  case ordered => exact fun g other inUse => (nodes g other inUse).2.2
  case levelled =>
    rw [placed.levels, Array.size_modify, placed.vars]
    exact sound.levelled
  case levelVar => exact fun i level at_place => (levels i level at_place).1
  case levelNodes => exact fun i level at_place => (levels i level at_place).2

theorem unheld_counts (store : Store) (sound : store.Sound) (f : Ref) (free : f ∈ store.free) :
    store.counts.setIfInBounds f 0 = store.counts := by
  have unheld := sound.freeUnheld f free
  apply Array.ext_getElem?
  intro i
  rw [Array.getElem?_setIfInBounds]
  by_cases same : f = i
  · subst same
    rw [if_pos rfl, if_pos (Array.getElem?_eq_some_iff.mp unheld).1, unheld]
  · rw [if_neg same]

theorem place_free_placed (store : Store) (sound : store.Sound) (node : Node) (f : Ref) (rest : List Ref)
    (free : store.free = f :: rest) : Placed store (store.place node).2 node f := by
  have member : f ∈ store.free := by simp [free]
  obtain ⟨large, slot⟩ := (sound.freeListed f).mp member
  have once : f ∉ rest ∧ rest.Nodup := by simpa [free] using sound.freeOnce
  have inside : f < store.arena.size := (Array.getElem?_eq_some_iff.mp slot).1
  rw [place_free store node f rest free, unheld_counts store sound f member]
  constructor
  case large => exact large
  case unused =>
    rintro old ⟨_, inUse⟩
    rw [slot] at inUse
    exact nomatch inUse
  case here => exact Array.getElem?_setIfInBounds_self_of_lt inside
  case elsewhere => exact fun g different => Array.getElem?_setIfInBounds_ne (Ne.symm different)
  case counted => simp [sound.counted]
  case freeOnce => exact once.2
  case freed =>
    intro g
    rw [free, List.mem_cons]
    constructor
    · intro later
      have different : g ≠ f := fun same => once.1 (same ▸ later)
      exact ⟨different, .inr later⟩
    · rintro ⟨different, same | later⟩
      · exact absurd same different
      · exact later
  case unheld => exact fun _ _ => rfl
  case levels => rfl
  case vars => rfl

theorem place_end_placed (store : Store) (sound : store.Sound) (node : Node) (free : store.free = []) :
    Placed store (store.place node).2 node store.arena.size := by
  rw [place_end store node free]
  constructor
  case large => exact (Array.getElem?_eq_some_iff.mp sound.one).1
  case unused =>
    rintro old ⟨_, inUse⟩
    simp at inUse
  case here => simp
  case elsewhere => exact fun g different => Array.getElem?_push.trans (if_neg different)
  case counted => simp [sound.counted]
  case freeOnce => exact sound.freeOnce
  case freed => simp [free]
  case unheld => simp [free]
  case levels => rfl
  case vars => rfl

theorem place_builds (store : Store) (sound : store.Sound) (node : Node)
    (kept : ∀ g other, store.Tests g other → (store.place node).2.Tests g other) :
    Builds store (store.place node).2 := by
  cases free : store.free with
  | nil =>
      rw [place_end store node free] at kept ⊢
      exact ⟨rfl, rfl, rfl, kept, ⟨1, by simp⟩, ⟨[], by simp⟩⟩
  | cons f rest =>
      rw [place_free store node f rest free, unheld_counts store sound f (by simp [free])] at kept ⊢
      exact ⟨rfl, rfl, rfl, kept, ⟨0, by simp⟩, ⟨[f], by simp [free]⟩⟩

theorem place_placed (store : Store) (sound : store.Sound) (node : Node) :
    Placed store (store.place node).2 node (store.place node).1 := by
  cases free : store.free with
  | nil =>
      have first : (store.place node).1 = store.arena.size := by rw [place_end store node free]
      exact first ▸ place_end_placed store sound node free
  | cons f rest =>
      have first : (store.place node).1 = f := by rw [place_free store node f rest free]
      exact first ▸ place_free_placed store sound node f rest free

theorem place_sound (store : Store) (sound : store.Sound) (node : Node) (fits : store.Placeable node) :
    (store.place node).2.Sound ∧ Builds store (store.place node).2 ∧
      (store.place node).2.Tests (store.place node).1 node ∧ (store.place node).2.memo = store.memo := by
  have memo : (store.place node).2.memo = store.memo := by
    unfold place
    split <;> rfl
  have placed := place_placed store sound node
  have tests := placed_tests store _ node _ placed
  refine ⟨placed_sound store _ sound node _ fits placed, ?_, (tests _ node).mpr (.inr ⟨rfl, rfl⟩), memo⟩
  exact place_builds store sound node fun g other old => (tests g other).mpr (.inl old)

end DomainDiagram.Store
