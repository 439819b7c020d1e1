import DomainDiagram.Proofs.Histories
import Mathlib.Data.List.Perm.Subperm

set_option autoImplicit false

namespace DomainDiagram

namespace Store

def Held (store : Store) (f : Ref) : Prop :=
  (∃ node, store.Tests f node) ∧ ∃ count, store.counts[f]? = some count ∧ 0 < count

def Kept (store : Store) (f : Ref) : Prop := ∃ root, store.Held root ∧ store.Reaches root f

theorem is_held_count (store : Store) (f : Ref) :
    store.isHeld f = true ↔ ∃ count, store.counts[f]? = some count ∧ 0 < count := by
  unfold isHeld
  cases store.counts[f]? with
  | none => simp
  | some count => simp

theorem roots_held (store : Store) (sound : store.Sound) (f : Ref) : f ∈ store.roots ↔ store.Held f := by
  rw [roots, List.mem_filter, is_held_count]
  constructor
  · rintro ⟨listed, held⟩
    have large := ((decisions_mem store sound f).mp listed).1
    rcases roots_live store sound f (List.mem_filter.mpr ⟨listed, (is_held_count store f).mpr held⟩) with
      small | inUse
    · exact absurd large (Nat.not_le_of_lt (Nat.lt_succ_of_le small))
    · exact ⟨inUse, held⟩
  · rintro ⟨⟨node, tests⟩, held⟩
    have inside : f < store.arena.size := (Array.getElem?_eq_some_iff.mp tests.2).1
    exact ⟨(decisions_mem store sound f).mpr ⟨tests.1, inside⟩, held⟩

theorem closed_reaches (store : Store) (alive : Std.TreeSet Ref) (closed : store.Closed alive) (f g : Ref)
    (reach : store.Reaches f g) (inside : f ∈ alive) : g ∈ alive := by
  induction reach with
  | here f => exact inside
  | low f g node tests _ ih =>
      obtain ⟨other, otherTests, low, _⟩ := closed.decision f inside tests.1
      obtain rfl := tests_node_unique store f node other tests otherTests
      exact ih low
  | high f g node tests _ ih =>
      obtain ⟨other, otherTests, _, high⟩ := closed.decision f inside tests.1
      obtain rfl := tests_node_unique store f node other tests otherTests
      exact ih high

theorem reach_kept (store : Store) (sound : store.Sound) :
    ∃ alive, store.reach store.roots = .ok alive ∧ store.Closed alive ∧
      ∀ f, f ∈ alive ↔ f ≤ 1 ∨ store.Kept f := by
  obtain ⟨alive, done, closed, held, reached⟩ := reach_ok store sound store.roots (roots_live store sound)
  refine ⟨alive, done, closed, fun f => ⟨fun inside => ?_, fun kept => ?_⟩⟩
  · rcases reached f inside with small | ⟨root, member, reach⟩
    · exact .inl small
    · exact .inr ⟨root, (roots_held store sound root).mp member, reach⟩
  · rcases kept with small | ⟨root, rootHeld, reach⟩
    · rcases Ref.terminal_cases f small with rfl | rfl
      · exact closed.zero
      · exact closed.one
    · exact closed_reaches store alive closed root f reach
        (held root ((roots_held store sound root).mpr rootHeld))

theorem garbage_kept (store : Store) (alive : Std.TreeSet Ref)
    (kept : ∀ f, f ∈ alive ↔ f ≤ 1 ∨ store.Kept f) (f : Ref) :
    f ∈ store.garbage alive ↔ (∃ node, store.Tests f node) ∧ ¬ store.Kept f := by
  rw [garbage_mem, kept]
  constructor
  · rintro ⟨inUse, dead⟩
    exact ⟨inUse, fun live => dead (.inr live)⟩
  · rintro ⟨⟨node, tests⟩, dead⟩
    refine ⟨⟨node, tests⟩, ?_⟩
    rintro (small | live)
    · exact absurd tests.1 (Nat.not_le_of_lt (Nat.lt_succ_of_le small))
    · exact dead live

theorem garbage_ascending (store : Store) (alive : Std.TreeSet Ref) :
    (store.garbage alive).Pairwise (· < ·) := (List.pairwise_lt_range' 1).filter _

theorem sweep_fits (store : Store) (sound : store.Sound) (alive : Std.TreeSet Ref) :
    (store.garbage alive).length + store.free.length ≤ store.arena.size - 2 := by
  have once := sweep_once store sound alive
  have inside : (store.sweep alive).free ⊆ store.decisions := by
    intro f member
    rw [decisions_mem store sound]
    obtain ⟨large, slot⟩ := (sweep_listed store sound alive f).mp member
    have bound : f < (store.sweep alive).arena.size := (Array.getElem?_eq_some_iff.mp slot).1
    simp only [sweep, Array.size_mapIdx] at bound
    exact ⟨large, bound⟩
  have short := (once.subperm inside).length_le
  simpa [sweep, decisions] using short

structure Collected (old new : Store) (freed : Nat) : Prop where
  live : ∀ f node, new.Tests f node ↔ old.Tests f node ∧ old.Kept f
  slots : new.arena.size = old.arena.size
  reclaimed : ∀ f node, old.Tests f node → ¬ old.Kept f → new.arena[f]? = some .free
  counts : new.counts = old.counts
  eval : ∀ f, new.Live f → ∀ env, new.eval f env = old.eval f env
  levelled : new.levels.size = new.numVars
  levelNodes : ∀ i level, new.levels[i]? = some level → level.var = i + 1 ∧
    ∀ low high f, level.find? low high = some f ↔ new.Tests f ⟨i + 1, low, high⟩
  memo : new.memo.slots = ∅ ∧ new.memo.size = 0
  vars : new.numVars = old.numVars
  free : ∃ gone : List Ref, gone.Pairwise (· < ·) ∧
    (∀ f, f ∈ gone ↔ (∃ node, old.Tests f node) ∧ ¬ old.Kept f) ∧ new.free = gone.reverse ++ old.free
  amount : new.numNodes + freed = old.numNodes

theorem sweep_collected (store : Store) (sound : store.Sound) (alive : Std.TreeSet Ref)
    (after : (store.forget.sweep alive).Sound) (kept : ∀ f, f ∈ alive ↔ f ≤ 1 ∨ store.Kept f) :
    store.Collected (store.forget.sweep alive) (store.garbage alive).length := by
  have live : ∀ f node, (store.forget.sweep alive).Tests f node ↔ store.Tests f node ∧ store.Kept f := by
    intro f node
    refine (sweep_tests store.forget alive f node).trans (and_congr_right fun tests => ?_)
    have large := tests.1
    rw [kept]
    exact or_iff_right (by lia)
  constructor
  case live => exact live
  case slots => simp [sweep, forget]
  case reclaimed =>
    intro f node tests dead
    have gone : f ∈ (store.forget.sweep alive).free :=
      (sweep_free store.forget alive f).mpr (.inl ((garbage_kept store alive kept f).mpr ⟨⟨node, tests⟩, dead⟩))
    exact ((after.freeListed f).mp gone).2
  case counts => rfl
  case eval =>
    intro f inUse env
    have steady := sweep_steady store.forget alive
    have before : store.Live f := by
      refine inUse.imp_right ?_
      rintro ⟨node, tests⟩
      exact ⟨node, ((live f node).mp tests).1⟩
    exact eval_steady store _ sound after ⟨steady.id, steady.config, steady.vars, steady.kept⟩ f before inUse env
  case levelled => exact after.levelled
  case levelNodes =>
    exact fun i level at_place => ⟨after.levelVar i level at_place, after.levelNodes i level at_place⟩
  case memo => exact ⟨rfl, rfl⟩
  case vars => rfl
  case free =>
    exact ⟨store.garbage alive, garbage_ascending store alive, garbage_kept store alive kept, rfl⟩
  case amount =>
    have fits := sweep_fits store sound alive
    have listed : (store.forget.sweep alive).free.length = (store.garbage alive).length + store.free.length := by
      simp [sweep, garbage, forget, decisions, isLive]
    have slots : (store.forget.sweep alive).arena.size = store.arena.size := by simp [sweep, forget]
    rw [numNodes, numNodes, listed, slots]
    lia

structure Alike (old new : Store) : Prop where
  arena : new.arena = old.arena
  counts : new.counts = old.counts
  free : new.free = old.free
  levelled : new.levels.size = old.levels.size
  levels : ∀ (i : Nat) (before after : Level), old.levels[i]? = some before → new.levels[i]? = some after →
    after.var = before.var ∧ ∀ low high, after.find? low high = before.find? low high

theorem sweep_alike (store : Store) (sound : store.Sound) (alive : Std.TreeSet Ref)
    (none : store.garbage alive = []) : store.Alike (store.forget.sweep alive) := by
  have all : ∀ f node, store.Tests f node → f ∈ alive := by
    intro f node tests
    by_contra dead
    have gone := (garbage_mem store alive f).mpr ⟨⟨node, tests⟩, dead⟩
    rw [none] at gone
    exact nomatch gone
  constructor
  case arena =>
    refine Array.ext_getElem? fun f => ?_
    rw [sweep_slot]
    have same : store.forget.arena = store.arena := rfl
    rw [same]
    cases slot : store.arena[f]? with
    | none => rfl
    | some kind =>
        rcases Ref.terminal_or f with small | large
        · simp [small]
        · cases kind with
          | free => simp
          | live node =>
              have inside := all f node ⟨large, slot⟩
              simp [inside]
  case counts => rfl
  case free =>
    have listed : (store.forget.sweep alive).free = (store.garbage alive).reverse ++ store.free := rfl
    rw [listed, none]
    rfl
  case levelled => simp [sweep, forget]
  case levels =>
    intro i before after beforeFound afterFound
    obtain ⟨old, oldFound, rfl⟩ := sweep_level store.forget alive i after afterFound
    obtain rfl := Option.some.inj (beforeFound.symm.trans oldFound)
    refine ⟨rfl, fun low high => Option.ext fun f => ?_⟩
    rw [level_find_retain]
    refine and_iff_left_of_imp fun found => Std.TreeSet.contains_iff_mem.mpr ?_
    exact all f _ ((sound.levelNodes i before beforeFound low high f).mp found)

theorem reaches_still (old new : Store) (still : ∀ f node, old.Tests f node → old.Kept f → new.Tests f node)
    (root f g : Ref) (held : old.Held root) (above : old.Reaches root f) (reach : old.Reaches f g) :
    new.Reaches f g := by
  have step : ∀ a b c, old.Reaches a b → old.Reaches b c → old.Reaches a c := by
    intro a b c first second
    induction first with
    | here => exact second
    | low a b node tests _ ih => exact .low a c node tests (ih second)
    | high a b node tests _ ih => exact .high a c node tests (ih second)
  induction reach with
  | here f => exact .here f
  | low f g node tests _ ih =>
      exact .low f g node (still f node tests ⟨root, held, above⟩)
        (ih (step root f node.low above (.low f node.low node tests (.here node.low))))
  | high f g node tests _ ih =>
      exact .high f g node (still f node tests ⟨root, held, above⟩)
        (ih (step root f node.high above (.high f node.high node tests (.here node.high))))

theorem collected_kept (old new : Store) (freed : Nat) (collected : old.Collected new freed) (f : Ref)
    (node : Node) (tests : new.Tests f node) : new.Kept f := by
  obtain ⟨_, root, ⟨⟨other, rootTests⟩, counted⟩, reach⟩ := (collected.live f node).mp tests
  have held : old.Held root := ⟨⟨other, rootTests⟩, counted⟩
  have still : ∀ g other, old.Tests g other → old.Kept g → new.Tests g other := fun g other used kept =>
    (collected.live g other).mpr ⟨used, kept⟩
  refine ⟨root, ⟨⟨other, still root other rootTests ⟨root, held, .here root⟩⟩, ?_⟩, ?_⟩
  · rw [collected.counts]
    exact counted
  · exact reaches_still old new still root root f held (.here root) reach

end Store

namespace Action

open Store

theorem collect_collected (store : Store) (sound : store.Sound) :
    ∃ sweep next, collect store = .ok sweep next ∧ next.Sound ∧ store.Collected next sweep.freed := by
  obtain ⟨alive, done, closed, kept⟩ := reach_kept store sound
  have held : ∀ f ∈ store.roots, f ∈ alive := fun f member =>
    (kept f).mpr (.inr ⟨f, (roots_held store sound f).mp member, .here f⟩)
  have after : (store.forget.sweep alive).Sound :=
    sound_same (store.sweep alive) _ rfl (sweep_sound store sound alive closed held)
  refine ⟨⟨store.roots.length, alive.size - 2, (store.garbage alive).length⟩, store.forget.sweep alive, ?_,
    after, sweep_collected store sound alive after kept⟩
  rw [collect_run, done]

theorem collect_again (store : Store) (sound : store.Sound)
    (all : ∀ f node, store.Tests f node → store.Kept f) :
    ∃ sweep next, collect store = .ok sweep next ∧ sweep.freed = 0 ∧ store.Alike next := by
  obtain ⟨alive, done, closed, kept⟩ := reach_kept store sound
  have none : store.garbage alive = [] := by
    refine List.eq_nil_iff_forall_not_mem.mpr fun f member => ?_
    obtain ⟨⟨node, tests⟩, dead⟩ := (garbage_kept store alive kept f).mp member
    exact dead (all f node tests)
  refine ⟨⟨store.roots.length, alive.size - 2, (store.garbage alive).length⟩, _, ?_, ?_,
    sweep_alike store sound alive none⟩
  · rw [collect_run, done]
  · rw [none]
    rfl

end Action

namespace Workspace

theorem set_store_found (ws : Workspace) (m : Nat) (store next : Store) (found : ws.stores[m]? = some store) :
    (ws.setStore m next).stores[m]? = some next :=
  Array.getElem?_setIfInBounds_self_of_lt (Array.getElem?_eq_some_iff.mp found).1

theorem collect_reply (ws : Workspace) (m : Nat) (store next : Store) (sweep : Sweep)
    (found : ws.stores[m]? = some store) (done : Action.collect store = .ok sweep next) :
    ws.perform (.collect m) = ⟨.ok (.amount sweep.freed), [.collecting, .collected sweep],
      ws.setStore m next⟩ := by
  simp only [perform, collect, on_store_run, found, Request.perform, done]

theorem collect_exact (ws : Workspace) (reachable : ws.Reachable) (m : Nat) (store : Store)
    (found : ws.stores[m]? = some store) :
    ∃ (freed : Nat) (next last : Store),
      (ws.perform (.collect m)).outcome = .ok (.amount freed) ∧
      (ws.perform (.collect m)).workspace.stores[m]? = some next ∧ store.Collected next freed ∧
      ((ws.perform (.collect m)).workspace.perform (.collect m)).outcome = .ok (.amount 0) ∧
      ((ws.perform (.collect m)).workspace.perform (.collect m)).workspace.stores[m]? = some last ∧
      next.Alike last := by
  obtain ⟨book, _, trusted⟩ := reachable_trusted ws reachable
  obtain ⟨sweep, next, done, sound, collected⟩ :=
    Action.collect_collected store (trusted m store found).sound
  obtain ⟨again, last, repeated, none, alike⟩ :=
    Action.collect_again next sound (Store.collected_kept store next sweep.freed collected)
  have nextFound := set_store_found ws m store next found
  rw [collect_reply ws m store next sweep found done]
  refine ⟨sweep.freed, next, last, rfl, nextFound, collected, ?_⟩
  simp only [collect_reply (ws.setStore m next) m next last again nextFound repeated]
  exact ⟨congrArg (fun n => Except.ok (Answer.amount n)) none,
    set_store_found (ws.setStore m next) m next last nextFound, alike⟩

-- The conjunction of two literals is held, and the literal above goes.
theorem held_conjunction_exact :
    ∃ (ws : Workspace) (store next last : Store),
      ws = empty.run [.newStore {}, .newVars 0 2, .construct 0 (.literal 1 true),
        .construct 0 (.literal 2 true), .construct 0 (.combine .and 2 3), .hold 0 4] ∧
      ws.stores[0]? = some store ∧ (ws.perform (.collect 0)).outcome = .ok (.amount 1) ∧
      (ws.perform (.collect 0)).workspace.stores[0]? = some next ∧ store.Collected next 1 ∧ next.Alike last := by
  obtain ⟨freed, next, last, outcome, found, collected, _, _, alike⟩ :=
    collect_exact (empty.run [.newStore {}, .newVars 0 2, .construct 0 (.literal 1 true),
      .construct 0 (.literal 2 true), .construct 0 (.combine .and 2 3), .hold 0 4]) ⟨_, rfl⟩ 0 _ rfl
  have one : freed = 1 := by
    have amount : ((empty.run [.newStore {}, .newVars 0 2, .construct 0 (.literal 1 true),
      .construct 0 (.literal 2 true), .construct 0 (.combine .and 2 3), .hold 0 4]).perform
        (.collect 0)).outcome = .ok (.amount 1) := by decide +kernel
    exact Answer.amount.inj (Except.ok.inj (outcome.symm.trans amount))
  subst one
  exact ⟨_, _, next, last, rfl, rfl, outcome, found, collected, alike⟩

end Workspace
end DomainDiagram
