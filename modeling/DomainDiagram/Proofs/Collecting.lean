import DomainDiagram.Proofs.Holding
import DomainDiagram.Collect
import Mathlib.Data.List.Nodup

set_option autoImplicit false

namespace DomainDiagram

namespace Store

inductive Reaches (store : Store) : Ref → Ref → Prop where
  | here (f : Ref) : Reaches store f f
  | low (f g : Ref) (node : Node) (tests : store.Tests f node) (rest : Reaches store node.low g) :
      Reaches store f g
  | high (f g : Ref) (node : Node) (tests : store.Tests f node) (rest : Reaches store node.high g) :
      Reaches store f g

-- Both children of every decision in the later set are there too, unless the
-- decision was in the earlier set.
structure Marks (store : Store) (before after : Std.TreeSet Ref) (f : Ref) : Prop where
  kept : ∀ g ∈ before, g ∈ after
  reached : f ∈ after
  closed : ∀ g ∈ after, g ∈ before ∨
    (store.Reaches f g ∧ ∃ node, store.Tests g node ∧ node.low ∈ after ∧ node.high ∈ after)

@[simp] theorem mem_insert_iff (seen : Std.TreeSet Ref) (f g : Ref) : g ∈ seen.insert f ↔ g = f ∨ g ∈ seen := by
  rw [Std.TreeSet.mem_insert, Std.LawfulEqCmp.compare_eq_iff_eq, eq_comm]

theorem mark_seen (store : Store) (steps : Nat) (seen : Std.TreeSet Ref) (f : Ref) (member : f ∈ seen) :
    store.mark (steps + 1) seen f = .ok seen := by
  rw [mark, if_pos (Std.TreeSet.contains_iff_mem.mpr member)]

theorem mark_marks (store : Store) (sound : store.Sound) (steps : Nat) (seen : Std.TreeSet Ref)
    (f : Ref) (v : Var) (zero : 0 ∈ seen) (one : 1 ∈ seen) (enough : store.Suffices v steps)
    (below : store.Below v f) :
    ∃ after, store.mark steps seen f = .ok after ∧ store.Marks seen after f := by
  induction steps generalizing seen f v with
  | zero => exact absurd enough (suffices_none store v)
  | succ steps ih =>
      by_cases member : f ∈ seen
      · exact ⟨seen, mark_seen store steps seen f member, fun _ inside => inside, member,
          fun _ inside => .inl inside⟩
      · rcases below with small | ⟨node, tests, less⟩
        · rcases Ref.terminal_cases f small with rfl | rfl
          · exact absurd zero member
          · exact absurd one member
        · have bound := (sound.allocated f node tests).2
          have fewer : store.Suffices node.var steps := ⟨bound, by have := enough.2; lia⟩
          obtain ⟨lowBelow, highBelow⟩ := sound.ordered f node tests
          have started : ∀ g ∈ seen, g ∈ seen.insert f := fun g inside => by simp [inside]
          obtain ⟨middle, lowDone, lowMarks⟩ := ih (seen.insert f) node.low node.var (started 0 zero)
            (started 1 one) fewer lowBelow
          have carried : ∀ g ∈ seen, g ∈ middle := fun g inside => lowMarks.kept g (started g inside)
          obtain ⟨after, highDone, highMarks⟩ := ih middle node.high node.var (carried 0 zero)
            (carried 1 one) fewer highBelow
          have here : f ∈ middle := lowMarks.kept f (by simp)
          refine ⟨after, ?_, fun g inside => highMarks.kept g (carried g inside), highMarks.kept f here, ?_⟩
          · rw [mark, if_neg (by simpa using member), node_tests store f node tests]
            simp only [lowDone, highDone]
          · intro g inside
            rcases highMarks.closed g inside with early | ⟨reach, other, otherTests, children⟩
            · rcases lowMarks.closed g early with first | ⟨reach, other, otherTests, low, high⟩
              · rcases (mem_insert_iff seen f g).mp first with rfl | old
                · exact .inr ⟨.here g, node, tests, highMarks.kept _ lowMarks.reached, highMarks.reached⟩
                · exact .inl old
              · exact .inr ⟨.low f g node tests reach, other, otherTests, highMarks.kept _ low,
                  highMarks.kept _ high⟩
            · exact .inr ⟨.high f g node tests reach, other, otherTests, children⟩

structure Closed (store : Store) (alive : Std.TreeSet Ref) : Prop where
  zero : 0 ∈ alive
  one : 1 ∈ alive
  decision : ∀ f ∈ alive, 2 ≤ f → ∃ node, store.Tests f node ∧ node.low ∈ alive ∧ node.high ∈ alive

theorem marks_closed (store : Store) (before after : Std.TreeSet Ref) (f : Ref)
    (marks : store.Marks before after f) (closed : store.Closed before) : store.Closed after := by
  refine ⟨marks.kept 0 closed.zero, marks.kept 1 closed.one, fun g inside large => ?_⟩
  rcases marks.closed g inside with old | ⟨_, node, tests, children⟩
  · obtain ⟨node, tests, low, high⟩ := closed.decision g old large
    exact ⟨node, tests, marks.kept _ low, marks.kept _ high⟩
  · exact ⟨node, tests, children⟩

theorem reach_from (store : Store) (sound : store.Sound) (roots : List Ref) (seen : Std.TreeSet Ref)
    (live : ∀ f ∈ roots, store.Live f) (closed : store.Closed seen) :
    ∃ alive, roots.foldlM (store.mark store.steps) seen = .ok alive ∧ store.Closed alive ∧
      (∀ g ∈ seen, g ∈ alive) ∧ (∀ f ∈ roots, f ∈ alive) ∧
      ∀ g ∈ alive, g ∈ seen ∨ ∃ f ∈ roots, store.Reaches f g := by
  induction roots generalizing seen with
  | nil => exact ⟨seen, rfl, closed, fun _ inside => inside, by simp, fun _ inside => .inl inside⟩
  | cons f rest ih =>
      have enough : store.Suffices 0 store.steps := ⟨Nat.zero_le _, by simp only [steps]; omega⟩
      obtain ⟨middle, done, marks⟩ := mark_marks store sound store.steps seen f 0 closed.zero closed.one
        enough (live_below store sound f (live f List.mem_cons_self))
      obtain ⟨alive, restDone, aliveClosed, kept, roots, reached⟩ := ih middle
        (fun g member => live g (List.mem_cons_of_mem f member)) (marks_closed store seen middle f marks closed)
      refine ⟨alive, ?_, aliveClosed, fun g inside => kept g (marks.kept g inside), ?_, ?_⟩
      · rw [List.foldlM_cons, done]
        exact restDone
      · intro g member
        rcases List.mem_cons.mp member with rfl | later
        · exact kept g marks.reached
        · exact roots g later
      · intro g inside
        rcases reached g inside with early | ⟨root, member, reach⟩
        · rcases marks.closed g early with old | ⟨reach, _⟩
          · exact .inl old
          · exact .inr ⟨f, List.mem_cons_self, reach⟩
        · exact .inr ⟨root, List.mem_cons_of_mem f member, reach⟩

@[simp] theorem terminals_mem (f : Ref) : f ∈ Std.TreeSet.ofList [0, 1] ↔ f = 0 ∨ f = 1 := by
  simp [Std.TreeSet.mem_ofList]

theorem reach_ok (store : Store) (sound : store.Sound) (roots : List Ref)
    (live : ∀ f ∈ roots, store.Live f) :
    ∃ alive, store.reach roots = .ok alive ∧ store.Closed alive ∧ (∀ f ∈ roots, f ∈ alive) ∧
      ∀ g ∈ alive, g ≤ 1 ∨ ∃ f ∈ roots, store.Reaches f g := by
  have closed : store.Closed (.ofList [0, 1]) := by
    refine ⟨by simp, by simp, fun f inside large => ?_⟩
    rcases (terminals_mem f).mp inside with rfl | rfl <;> exact absurd large (by decide)
  obtain ⟨alive, done, aliveClosed, _, roots, reached⟩ := reach_from store sound roots _ live closed
  refine ⟨alive, done, aliveClosed, roots, fun g inside => (reached g inside).imp_left fun old => ?_⟩
  rcases (terminals_mem g).mp old with rfl | rfl <;> decide

theorem is_live_tests (store : Store) (f : Ref) (large : 2 ≤ f) :
    store.isLive f = true ↔ ∃ node, store.Tests f node := by
  unfold isLive
  constructor
  · intro live
    split at live
    · next node slot => exact ⟨node, large, slot⟩
    · exact absurd live Bool.false_ne_true
  · rintro ⟨node, _, slot⟩
    rw [slot]

theorem decisions_mem (store : Store) (sound : store.Sound) (f : Ref) :
    f ∈ store.decisions ↔ 2 ≤ f ∧ f < store.arena.size := by
  have least : 2 ≤ store.arena.size := (Array.getElem?_eq_some_iff.mp sound.one).1
  rw [decisions, List.mem_range'_1]
  lia

theorem roots_live (store : Store) (sound : store.Sound) : ∀ f ∈ store.roots, store.Live f := by
  intro f member
  obtain ⟨listed, held⟩ := List.mem_filter.mp member
  obtain ⟨large, inside⟩ := (decisions_mem store sound f).mp listed
  have slot : store.arena[f]? = some store.arena[f] := Array.getElem?_eq_getElem inside
  cases kind : store.arena[f] with
  | live node => exact .inr ⟨node, large, kind ▸ slot⟩
  | free =>
      have unheld := sound.freeUnheld f ((sound.freeListed f).mpr ⟨large, kind ▸ slot⟩)
      simp [isHeld, unheld] at held

theorem contains_false (alive : Std.TreeSet Ref) (f : Ref) : alive.contains f = false ↔ f ∉ alive := by
  rw [← Std.TreeSet.contains_iff_mem, Bool.not_eq_true]

theorem garbage_mem (store : Store) (alive : Std.TreeSet Ref) (f : Ref) :
    f ∈ store.garbage alive ↔ (∃ node, store.Tests f node) ∧ f ∉ alive := by
  rw [garbage, List.mem_filter]
  constructor
  · rintro ⟨listed, kept⟩
    rw [decisions, List.mem_range'_1] at listed
    obtain ⟨live, dead⟩ := (Bool.and_eq_true _ _).mp kept
    exact ⟨(is_live_tests store f listed.1).mp live, (contains_false alive f).mp (by simpa using dead)⟩
  · rintro ⟨⟨node, tests⟩, dead⟩
    have inside : f < store.arena.size := (Array.getElem?_eq_some_iff.mp tests.2).1
    have live := (is_live_tests store f tests.1).mpr ⟨node, tests⟩
    refine ⟨?_, by simp [live, (contains_false alive f).mpr dead]⟩
    rw [decisions, List.mem_range'_1]
    have large := tests.1
    lia

theorem sweep_slot (store : Store) (alive : Std.TreeSet Ref) (f : Ref) :
    (store.sweep alive).arena[f]? =
      (store.arena[f]?).map fun slot => if f.isTerminal || alive.contains f then slot else .free := by
  simp only [sweep, Array.getElem?_mapIdx]

theorem sweep_tests (store : Store) (alive : Std.TreeSet Ref) (f : Ref) (node : Node) :
    (store.sweep alive).Tests f node ↔ store.Tests f node ∧ f ∈ alive := by
  unfold Tests
  rw [sweep_slot]
  by_cases member : f ∈ alive
  · simp [member]
  · constructor
    · rintro ⟨large, slot⟩
      simp [large, member] at slot
    · rintro ⟨_, inside⟩
      exact absurd inside member

theorem level_find_retain (level : Level) (keep : Ref → Bool) (low high f : Ref) :
    (level.retain keep).find? low high = some f ↔ level.find? low high = some f ∧ keep f = true := by
  simp only [Level.retain, Level.find?, Std.TreeMap.getElem?_filter', Option.filter_eq_some_iff]

theorem sweep_free (store : Store) (alive : Std.TreeSet Ref) (f : Ref) :
    f ∈ (store.sweep alive).free ↔ f ∈ store.garbage alive ∨ f ∈ store.free := by
  simp [sweep]

theorem sweep_listed (store : Store) (sound : store.Sound) (alive : Std.TreeSet Ref) (f : Ref) :
    f ∈ (store.sweep alive).free ↔ 2 ≤ f ∧ (store.sweep alive).arena[f]? = some .free := by
  rw [sweep_free, garbage_mem, sound.freeListed, sweep_slot]
  constructor
  · rintro (⟨⟨node, large, slot⟩, dead⟩ | ⟨large, slot⟩)
    · refine ⟨large, ?_⟩
      simp [slot, large, (contains_false alive f).mpr dead]
    · refine ⟨large, ?_⟩
      simp [slot]
  · rintro ⟨large, slot⟩
    cases old : store.arena[f]? with
    | none => simp [old] at slot
    | some kind =>
        cases kind with
        | free => exact .inr ⟨large, rfl⟩
        | live node =>
            refine .inl ⟨⟨node, large, old⟩, fun inside => ?_⟩
            simp [old, inside] at slot

theorem sweep_once (store : Store) (sound : store.Sound) (alive : Std.TreeSet Ref) :
    (store.sweep alive).free.Nodup := by
  refine List.nodup_append.mpr ⟨List.nodup_reverse.mpr ((List.nodup_range' 1).filter _), sound.freeOnce, ?_⟩
  rintro f dead g free rfl
  obtain ⟨⟨node, used⟩, _⟩ := (garbage_mem store alive f).mp (List.mem_reverse.mp dead)
  have slot := ((sound.freeListed f).mp free).2
  rw [used.2] at slot
  exact nomatch slot

-- Garbage is not held, for all that is held has been marked.
theorem garbage_unheld (store : Store) (sound : store.Sound) (alive : Std.TreeSet Ref)
    (held : ∀ f ∈ store.roots, f ∈ alive) (f : Ref) (dead : f ∈ store.garbage alive) :
    store.counts[f]? = some 0 := by
  obtain ⟨⟨node, used⟩, gone⟩ := (garbage_mem store alive f).mp dead
  have inside : f < store.arena.size := (Array.getElem?_eq_some_iff.mp used.2).1
  have covered : f < store.counts.size := sound.counted ▸ inside
  have counted : store.counts[f]? = some store.counts[f] := Array.getElem?_eq_getElem covered
  rw [counted]
  by_contra positive
  have root : f ∈ store.roots := by
    refine List.mem_filter.mpr ⟨(decisions_mem store sound f).mpr ⟨used.1, inside⟩, ?_⟩
    rw [isHeld, counted]
    exact decide_eq_true (Nat.pos_of_ne_zero fun none => positive (congrArg some none))
  exact gone (held f root)

theorem sweep_below (store : Store) (alive : Std.TreeSet Ref) (v : Var) (f : Ref)
    (below : store.Below v f) (inside : f ∈ alive) : (store.sweep alive).Below v f := by
  rcases below with small | ⟨node, old, less⟩
  · exact .inl small
  · exact .inr ⟨node, (sweep_tests store alive f node).mpr ⟨old, inside⟩, less⟩

theorem sweep_level (store : Store) (alive : Std.TreeSet Ref) (i : Nat) (level : Level)
    (at_place : (store.sweep alive).levels[i]? = some level) :
    ∃ old : Level, store.levels[i]? = some old ∧ old.retain alive.contains = level := by
  simpa [sweep] using at_place

theorem sweep_sound (store : Store) (sound : store.Sound) (alive : Std.TreeSet Ref)
    (closed : store.Closed alive) (held : ∀ f ∈ store.roots, f ∈ alive) : (store.sweep alive).Sound := by
  have tests := sweep_tests store alive
  constructor
  case counted => simp [sweep, sound.counted]
  case zero =>
    rw [sweep_slot, sound.zero]
    rfl
  case one =>
    rw [sweep_slot, sound.one]
    rfl
  case freeOnce => exact sweep_once store sound alive
  case freeListed => exact sweep_listed store sound alive
  case freeUnheld =>
    intro f member
    rcases (sweep_free store alive f).mp member with dead | free
    · exact garbage_unheld store sound alive held f dead
    · exact sound.freeUnheld f free
  case allocated => exact fun f node kept => sound.allocated f node ((tests f node).mp kept).1
  case irredundant => exact fun f node kept => sound.irredundant f node ((tests f node).mp kept).1
  case ordered =>
    intro f node kept
    obtain ⟨old, inside⟩ := (tests f node).mp kept
    obtain ⟨other, otherTests, low, high⟩ := closed.decision f inside old.1
    obtain rfl := tests_node_unique store f node other old otherTests
    obtain ⟨lowBelow, highBelow⟩ := sound.ordered f node old
    exact ⟨sweep_below store alive _ _ lowBelow low, sweep_below store alive _ _ highBelow high⟩
  case levelled => simp [sweep, sound.levelled]
  case levelVar =>
    intro i level at_place
    obtain ⟨old, oldPlace, rfl⟩ := sweep_level store alive i level at_place
    exact sound.levelVar i old oldPlace
  case levelNodes =>
    intro i level at_place low high f
    obtain ⟨old, oldPlace, rfl⟩ := sweep_level store alive i level at_place
    rw [level_find_retain, sound.levelNodes i old oldPlace, tests, Std.TreeSet.contains_iff_mem]

-- What every change to a store keeps, collection included: a node still in
-- use is the node that it was.
structure Steady (old new : Store) : Prop where
  id : new.id = old.id
  config : new.config = old.config
  vars : old.numVars ≤ new.numVars
  kept : ∀ f node, old.Tests f node → new.Live f → new.Tests f node

theorem follows_steady (old new : Store) (follows : Follows old new) : Steady old new :=
  ⟨follows.id, follows.config, follows.grown.vars, fun f node tests _ => follows.grown.kept f node tests⟩

theorem steady_refl (store : Store) : Steady store store := follows_steady store store (follows_refl store)

theorem sweep_steady (store : Store) (alive : Std.TreeSet Ref) : Steady store (store.sweep alive) := by
  refine ⟨rfl, rfl, Nat.le_refl _, fun f node tests live => ?_⟩
  rcases live with small | ⟨other, kept⟩
  · exact absurd tests.1 (Nat.not_le_of_lt (Nat.lt_succ_of_le small))
  · obtain ⟨old, inside⟩ := (sweep_tests store alive f other).mp kept
    exact (sweep_tests store alive f node).mpr ⟨tests, inside⟩

theorem eval_steady (old new : Store) (oldSound : old.Sound) (newSound : new.Sound)
    (steady : Steady old new) (f : Ref) (before : old.Live f) (after : new.Live f) (env : Var → Bool) :
    new.eval f env = old.eval f env := by
  refine live_induction old oldSound (fun g => new.Live g → new.eval g env = old.eval g env) ?_ ?_ f before after
  · intro g small _
    rw [eval_terminal new env g small, eval_terminal old env g small]
  · intro g node tests low high live
    have kept := steady.kept g node tests live
    rw [eval_tests new newSound env g node kept, eval_tests old oldSound env g node tests,
      low (low_live new newSound g node kept), high (high_live new newSound g node kept)]

def forget (store : Store) : Store := { store with memo := store.memo.clear }

theorem forget_found (store : Store) (key : OpKey) (r : Ref) : store.forget.memo.find? key ≠ some r := by
  rw [forget, Memo.find_clear]
  exact nofun

theorem sweep_coherent (book : Book) (store : Store) (alive : Std.TreeSet Ref)
    (sound : (store.forget.sweep alive).Sound) : (store.forget.sweep alive).Coherent book :=
  ⟨sound, store.memo.sound_clear, fun key r found => absurd found (forget_found store key r),
    fun key r found => absurd found (forget_found store key r)⟩

@[simp] theorem mark_bare (store : Store) (steps : Nat) (seen : Std.TreeSet Ref) (f : Ref) :
    store.bare.mark steps seen f = store.mark steps seen f := by
  induction steps generalizing seen f with
  | zero => rfl
  | succ steps ih => simp only [mark, node_bare, ih]

@[simp] theorem reach_bare (store : Store) (roots : List Ref) : store.bare.reach roots = store.reach roots := by
  have mark : store.bare.mark store.steps = store.mark store.steps :=
    funext fun seen => funext fun f => mark_bare store store.steps seen f
  rw [reach, steps_bare, mark]
  rfl

end Store

namespace Action

open Store

theorem collect_run (store : Store) : collect store =
    match store.reach store.roots with
    | .ok alive =>
        .ok ⟨store.roots.length, alive.size - 2, (store.garbage alive).length⟩ (store.forget.sweep alive)
    | .error fault => .error fault store.forget := by
  have reach : store.forget.reach store.forget.roots = store.reach store.roots :=
    (reach_bare store.forget store.roots).symm.trans (reach_bare store store.roots)
  have run : collect store = match store.forget.reach store.forget.roots with
    | .ok alive =>
        .ok ⟨store.roots.length, alive.size - 2, (store.garbage alive).length⟩ (store.forget.sweep alive)
    | .error fault => .error fault store.forget := rfl
  rw [run, reach]

theorem collect_done (store : Store) (sound : store.Sound) :
    ∃ alive, collect store =
        .ok ⟨store.roots.length, alive.size - 2, (store.garbage alive).length⟩ (store.forget.sweep alive) ∧
      (store.forget.sweep alive).Sound ∧ (∀ f ∈ store.roots, f ∈ alive) ∧
      ∀ g ∈ alive, g ≤ 1 ∨ ∃ f ∈ store.roots, store.Reaches f g := by
  obtain ⟨alive, done, closed, held, reached⟩ := reach_ok store sound store.roots (roots_live store sound)
  refine ⟨alive, ?_, ?_, held, reached⟩
  · rw [collect_run, done]
  · exact sound_same (store.sweep alive) _ rfl (sweep_sound store sound alive closed held)

theorem collect_ends (book : Book) (store : Store) (coherent : store.Coherent book) :
    Ends collect store (fun _ next => Steady store next ∧ next.Coherent book) (fun _ _ => False) := by
  obtain ⟨alive, done, sound, _, _⟩ := collect_done store coherent.sound
  rw [Ends, done]
  have steady := sweep_steady store.forget alive
  exact ⟨⟨steady.id, steady.config, steady.vars, steady.kept⟩, sweep_coherent book store alive sound⟩

theorem collect_same (left right : Store) (stores : left.bare = right.bare) :
    bare (collect left) = bare (collect right) := by
  refine same_blind collect (fun store => ?_) left right stores
  have roots : store.bare.roots = store.roots := rfl
  rw [collect_run, collect_run, roots, reach_bare]
  cases store.reach store.roots <;> rfl

end Action
end DomainDiagram
