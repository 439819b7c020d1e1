import DomainDiagram.Proofs.Counting
import DomainDiagram.Proofs.Lasting

set_option autoImplicit false

namespace DomainDiagram

namespace Store

theorem free_fits (store : Store) (sound : store.Sound) : 2 + store.free.length ≤ store.arena.size := by
  have least : 2 ≤ store.arena.size := (Array.getElem?_eq_some_iff.mp sound.one).1
  have inside : store.free ⊆ store.decisions := by
    intro f member
    obtain ⟨large, slot⟩ := (sound.freeListed f).mp member
    exact (decisions_mem store sound f).mpr ⟨large, (Array.getElem?_eq_some_iff.mp slot).1⟩
  have short := (sound.freeOnce.subperm inside).length_le
  rw [decisions, List.length_range'] at short
  omega

theorem decisions_once (store : Store) : store.decisions.Nodup := List.nodup_range' 1

theorem decisions_free (store : Store) (sound : store.Sound) :
    (store.decisions.filter (!store.isLive ·)).Perm store.free := by
  refine (List.perm_ext_iff_of_nodup ((decisions_once store).filter _) sound.freeOnce).mpr fun f => ?_
  rw [List.mem_filter, decisions_mem store sound, sound.freeListed]
  constructor
  · rintro ⟨⟨large, inside⟩, dead⟩
    refine ⟨large, ?_⟩
    cases slot : store.arena[f] with
    | free => rw [Array.getElem?_eq_getElem inside, slot]
    | live node => simp [isLive, Array.getElem?_eq_getElem inside, slot] at dead
  · rintro ⟨large, slot⟩
    exact ⟨⟨large, (Array.getElem?_eq_some_iff.mp slot).1⟩, by simp [isLive, slot]⟩

theorem decisions_in_use (store : Store) (sound : store.Sound) (f : Ref) :
    f ∈ store.decisions.filter store.isLive ↔ ∃ node, store.Tests f node := by
  rw [List.mem_filter, decisions_mem store sound]
  constructor
  · rintro ⟨⟨large, _⟩, live⟩
    exact (is_live_tests store f large).mp live
  · rintro ⟨node, tests⟩
    exact ⟨⟨tests.1, live_inside store sound f (.inr ⟨node, tests⟩)⟩,
      (is_live_tests store f tests.1).mpr ⟨node, tests⟩⟩

theorem num_nodes_counts (store : Store) (sound : store.Sound) :
    (store.numNodes : ℕ∞) = {f | ∃ node, store.Tests f node}.encard := by
  have inUse : {f | ∃ node, store.Tests f node} = {f | f ∈ store.decisions.filter store.isLive} :=
    Set.ext fun f => (decisions_in_use store sound f).symm
  have split := List.length_eq_length_filter_add (l := store.decisions) store.isLive
  have slots : store.decisions.length = store.arena.size - 2 := List.length_range' ..
  have amount : store.numNodes = (store.decisions.filter store.isLive).length := by
    rw [numNodes, ← slots, split, (decisions_free store sound).length_eq, Nat.add_sub_cancel]
  rw [inUse, list_encard _ ((decisions_once store).filter _), amount]

-- The slots that new nodes have come into on the way from one store to
-- another, in the order in which they did.
inductive Uses : Store → List Ref → Store → Prop where
  | rest (old new : Store) (arena : new.arena = old.arena) (free : new.free = old.free) : Uses old [] new
  | take (store : Store) (node : Node) : Uses store [(store.place node).1] (store.place node).2
  | onward (a b c : Store) (first second : List Ref) (before : Uses a first b) (after : Uses b second c) :
      Uses a (first ++ second) c

theorem uses_order (old new : Store) (taken : List Ref) (uses : Uses old taken new) :
    ∃ more, new.arena.size = old.arena.size + more ∧
      taken ++ new.free = old.free ++ List.range' old.arena.size more ∧ (0 < more → new.free = []) := by
  induction uses with
  | rest old new arena free => exact ⟨0, by rw [arena, Nat.add_zero], by simp [free], nofun⟩
  | take store node =>
      cases free : store.free with
      | nil =>
          rw [place_end store node free]
          exact ⟨1, Array.size_push .., by simp [free], fun _ => free⟩
      | cons f rest =>
          rw [place_free store node f rest free]
          exact ⟨0, Array.size_setIfInBounds .., by simp, nofun⟩
  | onward a b c first second _ _ firstIH secondIH =>
      obtain ⟨some, grown, order, used⟩ := firstIH
      obtain ⟨more, further, later, spent⟩ := secondIH
      refine ⟨some + more, by omega, ?_, fun positive => ?_⟩
      · rw [List.append_assoc, later, ← List.append_assoc, order, grown, List.append_assoc, List.range'_append_1]
      · rcases Nat.eq_zero_or_pos more with rfl | appended
        · have empty : second ++ c.free = [] := by rw [later, used positive, List.range'_zero, List.append_nil]
          exact (List.append_eq_nil_iff.mp empty).2
        · exact spent appended

theorem uses_lasting : Lasting fun old new => ∃ taken, Uses old taken new := by
  constructor
  case stay => exact fun store => ⟨[], .rest store store rfl rfl⟩
  case recount => exact fun store counts => ⟨[], .rest _ _ rfl rfl⟩
  case place => exact fun store node => ⟨_, .take store node⟩
  case onward =>
    rintro a b c ⟨first, before⟩ ⟨second, after⟩
    exact ⟨first ++ second, .onward a b c first second before after⟩

theorem uses_forgetful : Forgetful fun old new => ∃ taken, Uses old taken new :=
  fun _ _ => ⟨[], .rest _ _ rfl rfl⟩

theorem grow_uses (store : Store) (n : Nat) : Uses store [] (store.grow n) := .rest _ _ rfl rfl

structure Reuses (old : Store) (taken : List Ref) (new : Store) : Prop where
  uses : Uses old taken new
  order : taken ++ new.free = old.free ++ List.range' old.arena.size (new.arena.size - old.arena.size)
  appended : old.arena.size < new.arena.size → new.free = []
  vacant : ∀ f ∈ taken, ¬ old.Live f ∧ ∃ node, new.Tests f node
  amount : new.numNodes = old.numNodes + taken.length

theorem turn_once (store : Store) (sound : store.Sound) (more : Nat) :
    (store.free ++ List.range' store.arena.size more).Nodup := by
  refine List.Nodup.append sound.freeOnce (List.nodup_range' 1) fun f listed beyond => ?_
  have inside := (Array.getElem?_eq_some_iff.mp ((sound.freeListed f).mp listed).2).1
  exact absurd inside (Nat.not_lt_of_le (List.mem_range'_1.mp beyond).1)

theorem turn_vacant (store : Store) (sound : store.Sound) (more : Nat) (f : Ref)
    (member : f ∈ store.free ++ List.range' store.arena.size more) :
    ¬ store.Live f ∧ 2 ≤ f ∧ f < store.arena.size + more := by
  have fits := free_fits store sound
  rcases List.mem_append.mp member with free | beyond
  · obtain ⟨large, slot⟩ := (sound.freeListed f).mp free
    refine ⟨?_, large, Nat.lt_add_right more (Array.getElem?_eq_some_iff.mp slot).1⟩
    rintro (small | ⟨node, tests⟩)
    · exact absurd large (Nat.not_le_of_lt (Nat.lt_succ_of_le small))
    · exact nomatch slot.symm.trans tests.2
  · obtain ⟨least, most⟩ := List.mem_range'_1.mp beyond
    exact ⟨fun live => Nat.not_lt_of_le least (live_inside store sound f live), by lia, by lia⟩

theorem uses_reuses (old new : Store) (oldSound : old.Sound) (newSound : new.Sound) (taken : List Ref)
    (uses : Uses old taken new) : Reuses old taken new := by
  obtain ⟨more, grown, order, spent⟩ := uses_order old new taken uses
  constructor
  case uses => exact uses
  case order => rw [order, grown, Nat.add_sub_cancel_left]
  case appended => exact fun longer => spent (by omega)
  case vacant =>
    intro f member
    obtain ⟨dead, large, inside⟩ := turn_vacant old oldSound more f (order ▸ List.mem_append_left _ member)
    refine ⟨dead, ?_⟩
    rcases slot_cases new newSound f (grown ▸ inside) with (small | inUse) | free
    · exact absurd large (Nat.not_le_of_lt (Nat.lt_succ_of_le small))
    · exact inUse
    · have apart : (taken ++ new.free).Nodup := order ▸ turn_once old oldSound more
      exact absurd free (List.disjoint_of_nodup_append apart member)
  case amount =>
    have fits := free_fits old oldSound
    have lengths := congrArg List.length order
    simp only [List.length_append, List.length_range'] at lengths
    rw [numNodes, numNodes]
    omega

end Store

namespace Workspace

open Store

def usage (ws : Workspace) (m : Nat) : Nat :=
  match ws.stores[m]? with
  | some store => store.numNodes
  | none => 0

-- The most nodes that have been in use before, between and after the commands.
def peak (ws : Workspace) (m : Nat) : List Command → Nat
  | [] => ws.usage m
  | command :: rest => max (ws.usage m) ((ws.perform command).workspace.peak m rest)

theorem usage_found (ws : Workspace) (m : Nat) (store : Store) (found : ws.stores[m]? = some store) :
    ws.usage m = store.numNodes := by
  rw [usage, found]

theorem peak_snoc (ws : Workspace) (m : Nat) (before : List Command) (command : Command) :
    ws.peak m (before ++ [command]) = max (ws.peak m before) ((ws.run (before ++ [command])).usage m) := by
  induction before generalizing ws with
  | nil => rfl
  | cons first rest ih =>
      rw [List.cons_append, peak, peak, ih, Nat.max_assoc]
      rfl

theorem peak_absent (m : Nat) (commands : List Command) (absent : (empty.run commands).stores[m]? = none) :
    empty.peak m commands = 0 := by
  induction commands using List.reverseRecOn with
  | nil => rfl
  | append_singleton before command ih =>
      rw [peak_snoc, ih (absent_before m before command absent), usage, absent]
      rfl

theorem fate_uses (ws : Workspace) (m : Nat) (command : Command) (store next : Store)
    (fate : ws.Fate (fun old new => ∃ taken, Uses old taken new) m store command next) :
    (∃ taken, Uses store taken next) ∨ command = .collect m ∧
      Action.Ends Action.collect store (fun _ later => later = next) fun _ later => later = next := by
  cases fate with
  | lasting _ _ still => exact .inl still
  | grown n _ _ => exact .inl ⟨[], grow_uses store n⟩
  | extended _ _ _ _ _ _ _ _ still =>
      obtain ⟨taken, uses⟩ := still
      exact .inl ⟨_, .onward _ _ _ _ _ (grow_uses store _) uses⟩
  | collected _ swept => exact .inr ⟨rfl, swept⟩

theorem fate_longest (ws : Workspace) (m : Nat) (command : Command) (store next : Store) (sound : store.Sound)
    (nextSound : next.Sound) (fate : ws.Fate (fun old new => ∃ taken, Uses old taken new) m store command next) :
    next.arena.size = max store.arena.size (2 + next.numNodes) := by
  have fits := free_fits store sound
  have nextFits := free_fits next nextSound
  rw [numNodes]
  rcases fate_uses ws m command store next fate with ⟨taken, uses⟩ | ⟨_, swept⟩
  · obtain ⟨more, grown, _, spent⟩ := uses_order store next taken uses
    -- slots are appended only when none is free, and then all of them are in use
    rcases Nat.eq_zero_or_pos more with rfl | appended
    · omega
    · rw [spent appended, List.length_nil]
      omega
  · obtain ⟨_, freed, collected⟩ := collect_swept store next sound swept
    have slots := collected.slots
    omega

theorem run_peak (m : Nat) (commands : List Command) (store : Store)
    (found : (empty.run commands).stores[m]? = some store) : store.arena.size = 2 + empty.peak m commands := by
  refine run_history uses_lasting uses_forgetful m
    (fun commands store => store.arena.size = 2 + empty.peak m commands) ?_ ?_ commands store found
  · intro before command id config store absent after made
    obtain ⟨slots, free, _⟩ := create_vacant id config store made
    rw [peak_snoc, peak_absent m before absent, usage_found _ m store after, numNodes, slots, free]
    rfl
  · intro before command store next found after known fate
    have sound := reachable_sound _ ⟨before, rfl⟩ m store found
    have nextSound := reachable_sound _ ⟨before ++ [command], rfl⟩ m next after
    have longest := fate_longest _ m command store next sound nextSound fate
    rw [peak_snoc, usage_found _ m next after]
    omega

theorem run_uses (ws : Workspace) (m : Nat) (commands : List Command)
    (spared : ∀ command ∈ commands, command ≠ .collect m) (store : Store) (found : ws.stores[m]? = some store) :
    ∃ next taken, (ws.run commands).stores[m]? = some next ∧ Uses store taken next := by
  induction commands generalizing ws store with
  | nil => exact ⟨store, [], found, .rest store store rfl rfl⟩
  | cons command rest ih =>
      obtain ⟨first, others⟩ := List.forall_mem_cons.mp spared
      obtain ⟨middle, middleFound, fate⟩ := perform_fate uses_lasting ws m store found uses_forgetful command
      have used : ∃ taken, Uses store taken middle := by
        rcases fate_uses ws m command store middle fate with used | ⟨here, _⟩
        · exact used
        · exact absurd here first
      obtain ⟨taken, uses⟩ := used
      obtain ⟨next, later, after, further⟩ := ih _ others middle middleFound
      exact ⟨next, taken ++ later, after, .onward _ _ _ _ _ uses further⟩

-- No slot is lost. The arena has grown to the most nodes there have been and
-- no further, and what a collection gives back is used again before it grows,
-- the slot given back last, of the highest index, first.
structure Thrifty (ws : Workspace) (m : Nat) (store : Store) (peak : Nat) : Prop where
  longest : store.arena.size = 2 + peak
  fits : 2 + store.free.length ≤ store.arena.size
  counted : (store.numNodes : ℕ∞) = {f | ∃ node, store.Tests f node}.encard
  reused : ∀ commands, (∀ command ∈ commands, command ≠ .collect m) →
    ∃ next taken, (ws.run commands).stores[m]? = some next ∧ store.Reuses taken next
  swept : ∃ (next : Store) (gone : List Ref), (ws.perform (.collect m)).workspace.stores[m]? = some next ∧
    gone.Pairwise (· < ·) ∧
    (∀ f, f ∈ gone ↔ (∃ node, store.Tests f node) ∧ ¬ ∃ node, next.Tests f node) ∧
    next.free = gone.reverse ++ store.free ∧ next.arena.size = store.arena.size ∧
    next.numNodes + gone.length = store.numNodes

theorem run_thrifty (m : Nat) (commands : List Command) (store : Store)
    (found : (empty.run commands).stores[m]? = some store) :
    (empty.run commands).Thrifty m store (empty.peak m commands) := by
  have reachable : (empty.run commands).Reachable := ⟨commands, rfl⟩
  have sound := reachable_sound _ reachable m store found
  constructor
  case longest => exact run_peak m commands store found
  case fits => exact free_fits store sound
  case counted => exact num_nodes_counts store sound
  case reused =>
    intro more spared
    obtain ⟨next, taken, after, uses⟩ := run_uses _ m more spared store found
    have nextSound := reachable_sound _ (reachable_run _ reachable more) m next after
    exact ⟨next, taken, after, uses_reuses store next sound nextSound taken uses⟩
  case swept =>
    obtain ⟨sweep, next, done, nextSound, collected⟩ := Action.collect_collected store sound
    obtain ⟨gone, ascending, lost, free⟩ := collected.free
    have reply := collect_reply _ m store next sweep found done
    refine ⟨next, gone, ?_, ascending, fun f => ?_, free, collected.slots, ?_⟩
    · rw [reply]
      exact set_store_found _ m store next found
    · rw [lost]
      refine and_congr_right fun ⟨node, tests⟩ => not_congr ⟨fun kept => ?_, fun ⟨other, still⟩ => ?_⟩
      · exact ⟨node, (collected.live f node).mpr ⟨tests, kept⟩⟩
      · exact ((collected.live f other).mp still).2
    · have nextFits := free_fits next nextSound
      have slots := collected.slots
      have lengths := congrArg List.length free
      rw [List.length_append, List.length_reverse] at lengths
      rw [numNodes, numNodes]
      omega

-- Of three nodes the one in the middle is held through a collection.
theorem collected_thrifty :
    ∃ (commands : List Command) (store : Store),
      commands = [.newStore {}, .newVars 0 3, .construct 0 (.literal 1 true), .construct 0 (.literal 2 true),
        .construct 0 (.literal 3 true), .hold 0 3, .collect 0] ∧
      (empty.run commands).stores[0]? = some store ∧ store.free = [4, 2] ∧ empty.peak 0 commands = 3 ∧
      (empty.run commands).Thrifty 0 store 3 := by
  obtain ⟨commands, named⟩ : ∃ commands : List Command, commands = [.newStore {}, .newVars 0 3,
    .construct 0 (.literal 1 true), .construct 0 (.literal 2 true), .construct 0 (.literal 3 true), .hold 0 3,
    .collect 0] := ⟨_, rfl⟩
  have after : (empty.run commands).stores[0]?.map (·.free) = some [4, 2] := by
    rw [named]
    decide +kernel
  have most : empty.peak 0 commands = 3 := by
    rw [named]
    decide +kernel
  obtain ⟨store, found, free⟩ := Option.map_eq_some_iff.mp after
  exact ⟨commands, store, named, found, free, most, most ▸ run_thrifty 0 commands store found⟩

end Workspace
end DomainDiagram
