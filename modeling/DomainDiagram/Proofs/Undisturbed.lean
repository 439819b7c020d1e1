import DomainDiagram.Proofs.Settling
import DomainDiagram.Query

set_option autoImplicit false

namespace DomainDiagram

namespace Store

-- Nodes and what they mean are as they were, slots were taken from the top of
-- the free ones or added at the end of the arena, and the count of f has changed
-- by shift f.
structure Undisturbed (old new : Store) (shift : Ref → Int) : Prop where
  nodes : ∀ f node, old.Tests f node → new.Tests f node
  functions : ∀ f, old.Live f → new.Live f ∧ ∀ env, new.eval f env = old.eval f env
  popped : ∃ popped, old.free = popped ++ new.free ∧ (∀ f ∈ popped, new.Live f) ∧
    ∀ f, f < old.arena.size → f ∉ popped → new.arena[f]? = old.arena[f]?
  appended : old.arena.size ≤ new.arena.size ∧ ∀ f, old.arena.size ≤ f → f < new.arena.size → new.Live f
  counts : ∀ f, old.Live f → ∃ n k, old.count f = .ok n ∧ new.count f = .ok k ∧ (k : Int) = n + shift f
  fresh : ∀ f, new.Live f → ¬ old.Live f → new.count f = .ok 0

theorem slot_cases (store : Store) (sound : store.Sound) (f : Ref) (inside : f < store.arena.size) :
    store.Live f ∨ f ∈ store.free := by
  rcases Ref.terminal_or f with small | large
  · exact .inl (.inl small)
  · have slot : store.arena[f]? = some store.arena[f] := Array.getElem?_eq_getElem inside
    cases kind : store.arena[f] with
    | free => exact .inr ((sound.freeListed f).mpr ⟨large, slot.trans (congrArg some kind)⟩)
    | live node => exact .inl (.inr ⟨node, large, slot.trans (congrArg some kind)⟩)

theorem live_inside (store : Store) (sound : store.Sound) (f : Ref) (live : store.Live f) : f < store.arena.size := by
  rcases live with small | ⟨node, tests⟩
  · exact Nat.lt_of_le_of_lt small (Array.getElem?_eq_some_iff.mp sound.one).1
  · exact (Array.getElem?_eq_some_iff.mp tests.2).1

theorem tally_vacant (store : Store) (sound : store.Sound) (f : Ref) (vacant : ¬ store.Live f) : store.tally f = 0 := by
  by_cases inside : f < store.arena.size
  · have listed := (slot_cases store sound f inside).resolve_left vacant
    rw [tally, sound.freeUnheld f listed]
    rfl
  · have outside : store.counts[f]? = none := by
      rw [Array.getElem?_eq_none_iff, sound.counted]
      exact Nat.le_of_not_lt inside
    rw [tally, outside]
    rfl

theorem count_terminal (store : Store) (f : Ref) (small : f ≤ 1) : store.count f = .ok 0 := by
  simp [count, small]

theorem count_live (store : Store) (sound : store.Sound) (f : Ref) (large : 2 ≤ f) (live : store.Live f) :
    store.count f = .ok (store.tally f) := by
  have inside := live_inside store sound f live
  rw [← sound.counted] at inside
  have counted : store.counts[f]? = some store.counts[f] := Array.getElem?_eq_getElem inside
  rw [count, if_neg (by simp [large]), tally, counted]
  rfl

section

variable (old new : Store) (oldSound : old.Sound) (newSound : new.Sound)

include oldSound newSound

theorem popped_live (size : old.arena.size ≤ new.arena.size) (used : List Ref) (free : old.free = used ++ new.free)
    (f : Ref) (member : f ∈ used) : new.Live f := by
  have listed : f ∈ old.free := free ▸ List.mem_append_left _ member
  obtain ⟨large, slot⟩ := (oldSound.freeListed f).mp listed
  have inside := Nat.lt_of_lt_of_le (Array.getElem?_eq_some_iff.mp slot).1 size
  have once := free ▸ oldSound.freeOnce
  exact (slot_cases new newSound f inside).resolve_right fun still =>
    (List.nodup_append.mp once).2.2 f member f still rfl

theorem unpopped_same (extended : Extends old new) (used : List Ref) (free : old.free = used ++ new.free) (f : Ref)
    (inside : f < old.arena.size) (other : f ∉ used) : new.arena[f]? = old.arena[f]? := by
  rcases slot_cases old oldSound f inside with (small | ⟨node, tests⟩) | listed
  · rcases Ref.terminal_cases f small with rfl | rfl
    · exact newSound.zero.trans oldSound.zero.symm
    · exact newSound.one.trans oldSound.one.symm
  · exact (extended.kept f node tests).2.trans tests.2.symm
  · have still : f ∈ new.free := (List.mem_append.mp (free ▸ listed)).resolve_left other
    exact ((newSound.freeListed f).mp still).2.trans ((oldSound.freeListed f).mp listed).2.symm

theorem undisturbed_of (extended : Extends old new) (size : old.arena.size ≤ new.arena.size)
    (free : ∃ used, old.free = used ++ new.free) (shift : Ref → Int)
    (tally : ∀ f, (new.tally f : Int) = old.tally f + shift f) (counted : ∀ f, shift f ≠ 0 → 2 ≤ f ∧ old.Live f) :
    Undisturbed old new shift := by
  obtain ⟨used, free⟩ := free
  have unshifted : ∀ f, ¬ (2 ≤ f ∧ old.Live f) → shift f = 0 := fun f apart =>
    Classical.byContradiction fun shifted => apart (counted f shifted)
  constructor
  case nodes => exact extended.kept
  case functions =>
    exact fun f live => ⟨extends_live old new extended f live, eval_extends old new oldSound newSound extended f live⟩
  case popped =>
    exact ⟨used, free, popped_live old new oldSound newSound size used free,
      unpopped_same old new oldSound newSound extended used free⟩
  case appended =>
    refine ⟨size, fun f beyond inside => (slot_cases new newSound f inside).resolve_right fun listed => ?_⟩
    have before : f ∈ old.free := free ▸ List.mem_append_right _ listed
    have slot := ((oldSound.freeListed f).mp before).2
    exact absurd (Array.getElem?_eq_some_iff.mp slot).1 (Nat.not_lt_of_le beyond)
  case counts =>
    intro f live
    rcases Ref.terminal_or f with small | large
    · have none := unshifted f fun both => absurd both.1 (by lia)
      exact ⟨0, 0, count_terminal old f small, count_terminal new f small, by rw [none]; rfl⟩
    · exact ⟨_, _, count_live old oldSound f large live,
        count_live new newSound f large (extends_live old new extended f live), tally f⟩
  case fresh =>
    intro f live vacant
    rcases Ref.terminal_or f with small | large
    · exact count_terminal new f small
    · have before := tally_vacant old oldSound f vacant
      have none := unshifted f fun both => vacant both.2
      have after := tally f
      rw [before, none] at after
      rw [count_live new newSound f large live, Int.ofNat_eq_zero.mp (after.trans (Int.add_zero _))]

end

theorem undisturbed_refl (store : Store) (sound : store.Sound) : store.Undisturbed store fun _ => 0 :=
  undisturbed_of store store sound sound (extends_refl store) (Nat.le_refl _) ⟨[], rfl⟩ _
    (fun _ => (Int.add_zero _).symm) fun _ shifted => absurd rfl shifted

theorem undisturbed_built (book : Book) (old new : Store) (sound : old.Sound) (advanced : Advances book old new) :
    old.Undisturbed new fun _ => 0 := by
  have newSound := advanced.coherent.sound
  obtain ⟨added, counts⟩ := advanced.built.counts
  have size : old.arena.size ≤ new.arena.size := by
    rw [← sound.counted, ← newSound.counted, counts, Array.size_append]
    exact Nat.le_add_right _ _
  refine undisturbed_of old new sound newSound (builds_extends old new advanced.built) size advanced.built.free _ ?_ ?_
  · intro f
    rw [tally_built old new advanced.built, Int.add_zero]
  · exact fun _ shifted => absurd rfl shifted

theorem undisturbed_grow (store : Store) (sound : store.Sound) (n : Nat) :
    store.Undisturbed (store.grow n) fun _ => 0 :=
  undisturbed_of store (store.grow n) sound (grow_sound store sound n) (grow_follows store n).grown (Nat.le_refl _)
    ⟨[], rfl⟩ _ (fun _ => (Int.add_zero _).symm) fun _ shifted => absurd rfl shifted

theorem undisturbed_recount (store : Store) (counts : Array Nat) (sound : store.Sound)
    (newSound : Store.Sound { store with counts }) (shift : Ref → Int)
    (tally : ∀ f, (Store.tally { store with counts } f : Int) = store.tally f + shift f)
    (counted : ∀ f, shift f ≠ 0 → 2 ≤ f ∧ store.Live f) : store.Undisturbed { store with counts } shift :=
  undisturbed_of store _ sound newSound ⟨Nat.le_refl _, fun _ _ tests => tests⟩ (Nat.le_refl _) ⟨[], rfl⟩ shift tally
    counted

end Store

namespace Action

open Store

theorem hold_recounts (store : Store) (f : Ref) :
    Ends (hold f) store (fun _ next => store.Live f ∧ ∃ counts, next = { store with counts })
      (fun _ next => next = store) := by
  unfold Ends hold
  rcases Ref.terminal_or f with small | large
  · rw [if_pos (Ref.terminal_true f small)]
    exact ⟨.inl small, store.counts, rfl⟩
  · rw [if_neg (by simp [large])]
    cases slot : store.arena[f]? with
    | none => rfl
    | some kind =>
        cases kind with
        | free => rfl
        | live node =>
            cases store.counts[f]? with
            | none => rfl
            | some count =>
                by_cases fits : count + 1 < countBound
                · simp only [if_pos fits]
                  exact ⟨.inr ⟨node, large, slot⟩, _, rfl⟩
                · simp only [if_neg fits]

theorem release_recounts (store : Store) (f : Ref) :
    Ends (release f) store (fun _ next => ∃ counts, next = { store with counts }) (fun _ next => next = store) := by
  unfold Ends release
  rcases Ref.terminal_or f with small | large
  · rw [if_pos (Ref.terminal_true f small)]
    exact ⟨store.counts, rfl⟩
  · rw [if_neg (by simp [large])]
    cases store.counts[f]? with
    | none => rfl
    | some held =>
        cases held with
        | zero => rfl
        | succ count => exact ⟨_, rfl⟩

theorem once_large (f g : Ref) (counted : f.once g ≠ 0) : 2 ≤ f ∧ g = f := by
  unfold Ref.once at counted
  exact Classical.byContradiction fun apart => counted (if_neg apart)

theorem hold_undisturbed (book : Book) (store : Store) (coherent : store.Coherent book) (f : Ref) :
    Ends (hold f) store (fun _ next => store.Undisturbed next fun g => f.once g)
      (fun _ next => store.Undisturbed next fun _ => 0) := by
  have known := ends_and _ store _ _ _ _ (hold_recounts store f)
    (ends_and _ store _ _ _ _ ((regular_hold book f).ends store coherent) (hold_tally store f))
  refine ends_mono _ store _ _ _ _ known ?_ ?_
  · rintro _ next ⟨⟨live, counts, rfl⟩, ⟨_, nextCoherent⟩, _, tally⟩
    refine undisturbed_recount store counts coherent.sound nextCoherent.sound _ (fun g => ?_) fun g counted => ?_
    · rw [tally, Int.natCast_add]
    · obtain ⟨large, rfl⟩ := once_large f g (Int.ofNat_ne_zero.mp counted)
      exact ⟨large, live⟩
  · rintro _ next ⟨rfl, _⟩
    exact undisturbed_refl next coherent.sound

theorem release_undisturbed (book : Book) (store : Store) (coherent : store.Coherent book) (f : Ref) :
    Ends (release f) store (fun _ next => store.Undisturbed next fun g => -f.once g)
      (fun _ next => store.Undisturbed next fun _ => 0) := by
  have known := ends_and _ store _ _ _ _ (release_recounts store f)
    (ends_and _ store _ _ _ _ ((regular_release book f).ends store coherent) (release_tally store f))
  refine ends_mono _ store _ _ _ _ known ?_ ?_
  · rintro _ next ⟨⟨counts, rfl⟩, ⟨_, nextCoherent⟩, tally⟩
    refine undisturbed_recount store counts coherent.sound nextCoherent.sound _ (fun g => ?_) fun g counted => ?_
    · rw [← tally]
      lia
    · obtain ⟨large, rfl⟩ := once_large f g (by lia)
      -- What is held is in use.
      refine ⟨large, Classical.byContradiction fun vacant => ?_⟩
      have none := tally_vacant store coherent.sound g vacant
      have one := tally g
      rw [none, Ref.once, if_pos ⟨large, rfl⟩] at one
      exact absurd one (Nat.succ_ne_zero _)
  · rintro _ next ⟨rfl, _⟩
    exact undisturbed_refl next coherent.sound

end Action

def Mark.shift (m : Nat) : Mark → Ref → Int
  | .held k g, f => if k = m then g.once f else 0
  | .released k g, f => if k = m then -g.once f else 0
  | _, _ => 0

theorem Mark.shift_none (m : Nat) : Mark.none.shift m = fun _ => 0 := rfl

theorem Mark.shift_held (m k : Nat) (f : Ref) :
    (Mark.held k f).shift m = if k = m then fun g => (f.once g : Int) else fun _ => 0 := by
  funext g
  rw [shift]
  split <;> rfl

theorem Mark.shift_released (m k : Nat) (f : Ref) :
    (Mark.released k f).shift m = if k = m then fun g => -(f.once g : Int) else fun _ => 0 := by
  funext g
  rw [shift]
  split <;> rfl

-- A collection in store m, or work on blocks there: it holds and gives up the
-- sets of variables by itself.
def Call.Stirs (m : Nat) : Call → Prop
  | .change (.collect k) => k = m
  | .change (.extend k _ _) => k = m
  | .change (.overlap k _ _ _) => k = m
  | .change (.teardown k _) => k = m
  | .change (.encode k _ _) => k = m
  | _ => False

def Call.shift (ws : Workspace) (m : Nat) : Call → Ref → Int
  | .change command => (Entry.mark ⟨command, ws.perform command⟩).shift m
  | .look _ => fun _ => 0

open Store

namespace Workspace

def Leaves (ws : Workspace) (m : Nat) (entry : Entry) : Prop :=
  ∀ store, ws.stores[m]? = some store → ∃ next, entry.reply.workspace.stores[m]? = some next ∧
    store.Undisturbed next (entry.mark.shift m)

section

variable (book : Book) (ws : Workspace) (trusted : ws.Trusted book) (m : Nat) (command : Command)

include trusted

theorem leaves_same (reply : Reply) (quiet : ∀ f, (Entry.mark ⟨command, reply⟩).shift m f = 0)
    (same : ∀ store, ws.stores[m]? = some store → reply.workspace.stores[m]? = some store) :
    ws.Leaves m ⟨command, reply⟩ := by
  intro store found
  refine ⟨store, same store found, ?_⟩
  rw [funext quiet]
  exact store.undisturbed_refl (trusted m store found).sound

theorem leaves_refused (failure : Failure) : ws.Leaves m ⟨command, ws.refuse failure⟩ := by
  refine leaves_same book ws trusted m command _ (fun f => ?_) fun _ found => found
  rw [Entry.mark_error command _ failure rfl, Mark.shift_none]

theorem leaves_found {α : Type} (named : Except Failure α) (next : α → Reply)
    (leaves : ∀ a, named = .ok a → ws.Leaves m ⟨command, next a⟩) : ws.Leaves m ⟨command, ws.found named next⟩ := by
  cases outcome : named with
  | ok a => exact leaves a outcome
  | error failure => exact leaves_refused book ws trusted m command failure

theorem leaves_on_store {α : Type} (k : Nat) (request : Request α) (answer : α → Store → Workspace → Reply)
    (still : ∀ a store later, (answer a store later).workspace.stores = later.stores) (shift : Ref → Int)
    (marked : ∀ a store later,
      (Entry.mark ⟨command, answer a store later⟩).shift m = if k = m then shift else fun _ => 0)
    (ends : k = m → ∀ store, store.Coherent book → Action.Ends request store
      (fun _ next => store.Undisturbed next shift) (fun _ next => store.Undisturbed next fun _ => 0)) :
    ws.Leaves m ⟨command, ws.onStore k request answer⟩ := by
  rcases on_store_cases ws k request answer with absent | ⟨store, found, outcome⟩
  · exact absent ▸ leaves_refused book ws trusted m command .absent
  · by_cases here : k = m
    · subst here
      have known := ends rfl store (trusted k store found)
      intro same sameFound
      obtain rfl := Option.some.inj (found.symm.trans sameFound)
      rcases outcome with ⟨a, next, ran, answered⟩ | ⟨failure, next, ran, answered⟩
      · refine ⟨next, ?_, ?_⟩
        · rw [answered, still]
          exact set_store_found ws k store next found
        · rw [answered, marked, if_pos rfl]
          exact Action.ends_ok _ store next a _ _ known ran
      · refine ⟨next, ?_, ?_⟩
        · rw [answered]
          exact set_store_found ws k store next found
        · rw [answered, Entry.mark_error command _ failure rfl, Mark.shift_none]
          simpa only [Action.Ends, ran] using known
    · have elsewhere : ∀ (next other : Store), ws.stores[m]? = some other →
          (ws.setStore k next).stores[m]? = some other :=
        fun next other otherFound => (Array.getElem?_setIfInBounds_ne here).trans otherFound
      rcases outcome with ⟨a, next, _, answered⟩ | ⟨failure, next, _, answered⟩
      · rw [answered]
        refine leaves_same book ws trusted m command _ (fun f => ?_) fun other otherFound => ?_
        · rw [marked, if_neg here]
        · rw [still]
          exact elsewhere next other otherFound
      · rw [answered]
        refine leaves_same book ws trusted m command _ (fun f => ?_) (elsewhere next)
        rw [Entry.mark_error command _ failure rfl, Mark.shift_none]

theorem leaves_construct (k : Nat) (act : Action Ref) (built : Action.Built book act)
    (quiet : ∀ reply, Entry.mark ⟨command, reply⟩ = .none) : ws.Leaves m ⟨command, ws.construct k act⟩ := by
  refine leaves_on_store book ws trusted m command k _ _ (fun _ _ _ => rfl) (fun _ => 0) (fun _ _ _ => ?_) ?_
  · rw [quiet, ite_self, Mark.shift_none]
  · intro _ store coherent
    exact Action.ends_perform act store _ _ (Action.ends_mono act store _ _ _ _ (built store coherent)
      (fun _ next advanced => undisturbed_built book store next coherent.sound advanced)
      (fun _ next advanced => undisturbed_built book store next coherent.sound advanced))

theorem leaves_untouched (reply : Reply) (quiet : Entry.mark ⟨command, reply⟩ = .none)
    (same : reply.workspace.stores = ws.stores) : ws.Leaves m ⟨command, reply⟩ := by
  refine leaves_same book ws trusted m command reply (fun f => ?_) fun _ found => same ▸ found
  rw [quiet, Mark.shift_none]

theorem leaves_elsewhere {α : Type} (k : Nat) (other : k ≠ m) (request : Request α)
    (answer : α → Store → Workspace → Reply)
    (still : ∀ a store later, (answer a store later).workspace.stores = later.stores)
    (marked : ∀ a store later, (Entry.mark ⟨command, answer a store later⟩).shift m = fun _ => 0) :
    ws.Leaves m ⟨command, ws.onStore k request answer⟩ := by
  refine leaves_on_store book ws trusted m command k request answer still (fun _ => 0) (fun a store later => ?_)
    fun same => absurd same other
  rw [marked, ite_self]

theorem leaves_teardown (k t : Nat) (other : k ≠ m) : ws.Leaves m ⟨.teardown k t, ws.teardown k t⟩ := by
  have quiet : ∀ (reply : Reply) f, (Entry.mark ⟨.teardown k t, reply⟩).shift m f = 0 := by
    intro reply f
    cases outcome : reply.outcome with
    | ok answer => simp only [Entry.mark, outcome, Mark.shift]
    | error failure => rw [Entry.mark_error _ reply failure outcome, Mark.shift_none]
  refine leaves_same book ws trusted m _ _ (quiet _) fun store found => ?_
  have elsewhere : ∀ next, (ws.setStore k next).stores[m]? = some store := fun next =>
    (Array.getElem?_setIfInBounds_ne other).trans found
  rw [teardown_run]
  cases ws.table t with
  | error failure => exact found
  | ok table =>
      cases ws.stores[k]? with
      | none => exact found
      | some home =>
          simp only [Workspace.found]
          split <;> exact elsewhere _

end

theorem perform_leaves (book : Book) (ws : Workspace) (booked : ws.Booked book) (trusted : ws.Trusted book) (m : Nat)
    (command : Command) (calm : ¬ Call.Stirs m (.change command)) : ws.Leaves m ⟨command, ws.perform command⟩ := by
  have untouched := leaves_untouched book ws trusted m
  cases command with
  | newStore config =>
      have quiet : ∀ reply, Entry.mark ⟨.newStore config, reply⟩ = .none := fun _ => rfl
      refine leaves_same book ws trusted m _ _ (fun f => by rw [quiet, Mark.shift_none]) fun store found => ?_
      rw [perform, new_store_run]
      split
      · split
        · exact push_found ws.stores _ store m found
        · exact found
      · exact found
  | newVars k n =>
      refine leaves_on_store book ws trusted m _ k _ _ (fun _ _ _ => rfl) (fun _ => 0) (fun _ _ _ => ?_) ?_
      · rw [ite_self]
        rfl
      · intro _ store coherent
        unfold Action.Ends Request.newVars Request.afterCheck
        cases drawn : store.nextVar n with
        | ok first =>
            simp only [drawn]
            exact store.undisturbed_grow coherent.sound n
        | error refusal =>
            simp only [drawn]
            exact store.undisturbed_refl coherent.sound
  | construct k construction =>
      exact leaves_construct book ws trusted m _ k _ (Action.built_construction book construction) fun _ => rfl
  | rename k p f =>
      refine leaves_found book ws trusted m _ _ _ fun names named => ?_
      have current := booked.current p names ((names_found ws p names).mp named)
      exact leaves_construct book ws trusted m _ k _ (Action.built_rename book names current f) fun _ => rfl
  | hold k f =>
      refine leaves_on_store book ws trusted m _ k _ _ (fun _ _ _ => rfl) (fun g => f.once g) (fun _ _ _ => ?_) ?_
      · exact Mark.shift_held m k f
      · exact fun _ store coherent => Action.ends_perform _ store _ _ (Action.hold_undisturbed book store coherent f)
  | release k f =>
      refine leaves_on_store book ws trusted m _ k _ _ (fun _ _ _ => rfl) (fun g => -f.once g) (fun _ _ _ => ?_) ?_
      · exact Mark.shift_released m k f
      · exact fun _ store coherent => Action.ends_perform _ store _ _ (Action.release_undisturbed book store coherent f)
  | collect k => exact leaves_elsewhere book ws trusted m _ k calm _ _ (fun _ _ _ => rfl) fun _ _ _ => rfl
  | newTable => exact untouched _ _ rfl rfl
  | extend k t sizes =>
      refine leaves_found book ws trusted m _ _ _ fun table _ => ?_
      exact leaves_elsewhere book ws trusted m _ k calm _ _ (fun _ _ _ => rfl) fun _ _ _ => rfl
  | overlap k t left right =>
      refine leaves_found book ws trusted m _ _ _ fun table _ => ?_
      exact leaves_elsewhere book ws trusted m _ k calm _ _ (fun _ _ _ => rfl) fun _ _ _ => rfl
  | teardown k t => exact leaves_teardown book ws trusted m k t calm
  | encode k t encoding =>
      refine leaves_found book ws trusted m _ _ _ fun table _ => ?_
      exact leaves_elsewhere book ws trusted m _ k calm _ _ (fun _ _ _ => rfl) fun _ _ _ => rfl
  | newRenaming => exact untouched _ _ rfl rfl
  | copyRenaming p => exact leaves_found book ws trusted m _ _ _ fun names _ => untouched _ _ rfl rfl
  | clearRenaming p => exact leaves_found book ws trusted m _ _ _ fun names _ => untouched _ _ rfl rfl
  | pair k p v w => exact untouched _ _ rfl (pair_stores ws k p v w)
  | pairBlocks k t p source target => exact untouched _ _ rfl (pair_as_stores ws k t p _)
  | pairAll k t p pairs => exact untouched _ _ rfl (pair_as_stores ws k t p _)

end Workspace

theorem work_extends (book : Book) (m : Nat) (store next : Store) (mark : Mark) (did : Work book m store next mark)
    (kept : mark ≠ .collected m) : Extends store next := by
  cases did with
  | build follows _ _ => exact follows.grown
  | hold _ follows _ _ => exact follows.grown
  | release _ follows _ _ => exact follows.grown
  | collect _ _ _ _ => exact absurd rfl kept

theorem change_extends (book : Book) (ws : Workspace) (entry : Entry) (change : Change book ws entry) (m : Nat)
    (spared : entry.command ≠ .collect m) (store : Store) (found : ws.stores[m]? = some store) :
    ∃ next, entry.reply.workspace.stores[m]? = some next ∧ Extends store next := by
  obtain ⟨next, after, rfl | did | ⟨follows, _⟩⟩ := change_at book ws entry change m store found
  · exact ⟨next, after, extends_refl next⟩
  · exact ⟨next, after, work_extends book m store next _ did fun mark => spared (Entry.mark_collected entry m mark)⟩
  · exact ⟨next, after, follows.grown⟩

theorem run_extends (ws : Workspace) (reachable : ws.Reachable) (m : Nat) (commands : List Command)
    (spared : ∀ command ∈ commands, command ≠ .collect m) (store : Store) (found : ws.stores[m]? = some store) :
    ∃ next, (ws.run commands).stores[m]? = some next ∧ Extends store next := by
  induction commands generalizing ws store with
  | nil => exact ⟨store, found, extends_refl store⟩
  | cons command rest ih =>
      obtain ⟨first, others⟩ := List.forall_mem_cons.mp spared
      obtain ⟨book, _, change⟩ := Workspace.reachable_change ws reachable command
      obtain ⟨middle, middleFound, grown⟩ := change_extends book ws _ change m first store found
      have onward := Workspace.reachable_run ws reachable [command]
      obtain ⟨next, nextFound, further⟩ := ih _ onward others middle middleFound
      exact ⟨next, nextFound, extends_trans store middle next grown further⟩

theorem reachable_undisturbed (ws : Workspace) (reachable : ws.Reachable) (m : Nat) (store : Store)
    (found : ws.stores[m]? = some store) :
    (∀ call : Call, ¬ call.Stirs m → ∃ next, (ws.turn call).workspace.stores[m]? = some next ∧
      store.Undisturbed next (call.shift ws m)) ∧
    ∀ commands : List Command, (∀ command ∈ commands, command ≠ .collect m) →
      ∃ next, (ws.run commands).stores[m]? = some next ∧ (∀ f node, store.Tests f node → next.Tests f node) ∧
        ∀ f, store.Live f → next.Live f ∧ ∀ env, next.eval f env = store.eval f env := by
  obtain ⟨book, booked, trusted⟩ := Workspace.reachable_trusted ws reachable
  have sound := (trusted m store found).sound
  refine ⟨fun call calm => ?_, fun commands spared => ?_⟩
  · cases call with
    | change command => exact Workspace.perform_leaves book ws booked trusted m command calm store found
    | look query => exact ⟨store, found, store.undisturbed_refl sound⟩
  · obtain ⟨next, after, grown⟩ := run_extends ws reachable m commands spared store found
    have nextSound := Workspace.reachable_sound _ (Workspace.reachable_run ws reachable commands) m next after
    exact ⟨next, after, grown.kept, fun f live =>
      ⟨extends_live store next grown f live, eval_extends store next sound nextSound grown f live⟩⟩

-- A slot that a collection has given back is used again, with a hold in force
-- on another node.
theorem reused_undisturbed :
    ∃ (ws : Workspace) (store next : Store),
      ws = Workspace.empty.run [.newStore {}, .newVars 0 3, .construct 0 (.literal 1 true),
        .construct 0 (.literal 2 true), .hold 0 3, .collect 0] ∧
      ws.stores[0]? = some store ∧ store.free = [2] ∧
      (ws.turn (.change (.construct 0 (.literal 3 false)))).workspace.stores[0]? = some next ∧ next.free = [] ∧
      store.Undisturbed next fun _ => 0 := by
  obtain ⟨ws, built⟩ : ∃ ws, ws = Workspace.empty.run [.newStore {}, .newVars 0 3, .construct 0 (.literal 1 true),
    .construct 0 (.literal 2 true), .hold 0 3, .collect 0] := ⟨_, rfl⟩
  have before : ws.stores[0]?.map (·.free) = some [2] := by
    rw [built]
    decide +kernel
  have after : (ws.turn (.change (.construct 0 (.literal 3 false)))).workspace.stores[0]?.map (·.free) = some [] := by
    rw [built]
    decide +kernel
  obtain ⟨store, found, free⟩ := Option.map_eq_some_iff.mp before
  obtain ⟨next, nextFound, undisturbed⟩ := (reachable_undisturbed ws ⟨_, built.symm⟩ 0 store found).1
    (.change (.construct 0 (.literal 3 false))) nofun
  rw [nextFound] at after
  exact ⟨ws, store, next, built, found, free, nextFound, Option.some.inj after, undisturbed⟩

end DomainDiagram
