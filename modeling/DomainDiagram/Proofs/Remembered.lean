import DomainDiagram.Proofs.Outcome

set_option autoImplicit false

namespace DomainDiagram

namespace Memo

theorem consult_found (memo : Memo) (key : OpKey) : (memo.consult key).1 = memo.find? key := by
  unfold consult
  split <;> simp_all

theorem find_consult (memo : Memo) (key other : OpKey) :
    (memo.consult key).2.find? other = memo.find? other := by
  unfold consult
  split <;> rfl

theorem find_insert (memo : Memo) (key other : OpKey) (r s : Ref)
    (found : (memo.insert key r).find? other = some s) :
    (other = key ∧ s = r) ∨ memo.find? other = some s := by
  have slots : (memo.insert key r).slots = memo.slots.insert (memo.slot key) (key, r) := rfl
  have place : (memo.insert key r).slot other = memo.slot other := rfl
  rw [find?, slots, place, Std.TreeMap.getElem?_insert] at found
  by_cases shared : compare (memo.slot key) (memo.slot other) = .eq
  · left
    by_cases same : key = other
    · exact ⟨same.symm, by simpa [shared, same] using found.symm⟩
    · simp [shared, same] at found
  · right
    rwa [if_neg shared] at found

theorem sound_empty (bits : Nat) : (empty bits).Sound := by
  refine ⟨fun i key r found => ?_, rfl⟩
  simp [empty] at found

theorem sound_consult (memo : Memo) (sound : memo.Sound) (key : OpKey) : (memo.consult key).2.Sound := by
  unfold consult
  split
  · exact ⟨sound.placed, sound.filled⟩
  · exact ⟨sound.placed, sound.filled⟩

theorem sound_insert (memo : Memo) (sound : memo.Sound) (key : OpKey) (r : Ref) :
    (memo.insert key r).Sound := by
  have slots : (memo.insert key r).slots = memo.slots.insert (memo.slot key) (key, r) := rfl
  have filled : (memo.insert key r).filled =
      if memo.slots.contains (memo.slot key) then memo.filled else memo.filled + 1 := rfl
  constructor
  · intro i other s found
    rw [slots, Std.TreeMap.getElem?_insert] at found
    by_cases here : compare (memo.slot key) i = .eq
    · rw [if_pos here] at found
      obtain ⟨rfl, rfl⟩ := Prod.mk.inj (Option.some.inj found)
      exact Nat.compare_eq_eq.mp here
    · rw [if_neg here] at found
      exact sound.placed i other s found
  · rw [filled, slots, Std.TreeMap.size_insert, sound.filled]

theorem sound_clear (memo : Memo) : memo.clear.Sound := by
  refine ⟨fun i key r found => ?_, rfl⟩
  simp [clear] at found

theorem found_slot (memo : Memo) (sound : memo.Sound) (i : Nat) (key : OpKey) (r : Ref)
    (inside : memo.slots[i]? = some (key, r)) : memo.find? key = some r := by
  have place := sound.placed i key r inside
  simp [find?, place, inside]

theorem find_clear (memo : Memo) (key : OpKey) : memo.clear.find? key = none := by
  simp [find?, clear]

theorem find_empty (bits : Nat) (key : OpKey) : (empty bits).find? key = none := by
  simp [find?, empty]

end Memo

namespace Store

theorem coherent_extends (old new : Store) (book : Book) (coherent : old.Coherent book)
    (sound : new.Sound) (memo : new.memo.Sound) (grown : Extends old new)
    (found : ∀ key r, new.memo.find? key = some r → old.memo.find? key = some r) :
    new.Coherent book := by
  refine ⟨sound, memo, fun key r known f member => ?_, fun key r known => ?_⟩
  · exact extends_live old new grown f (coherent.operands key r (found key r known) f member)
  · exact settled_extends old new grown book key r (coherent.settled key r (found key r known))

def OnlyMemo (old new : Store) : Prop := ∃ memo, new = { old with memo := memo }

theorem only_memo_refl (store : Store) : OnlyMemo store store := ⟨store.memo, rfl⟩

theorem only_memo_trans (a b c : Store) (ab : OnlyMemo a b) (bc : OnlyMemo b c) : OnlyMemo a c := by
  obtain ⟨first, rfl⟩ := ab
  obtain ⟨second, rfl⟩ := bc
  exact ⟨second, rfl⟩

theorem only_memo_bare (old new : Store) (only : OnlyMemo old new) : old.bare = new.bare := by
  obtain ⟨memo, rfl⟩ := only
  rfl

theorem only_memo_builds (old new : Store) (only : OnlyMemo old new) : Builds old new := by
  obtain ⟨memo, rfl⟩ := only
  exact ⟨rfl, rfl, rfl, fun _ _ tests => tests, ⟨0, by simp⟩, ⟨[], rfl⟩⟩

theorem settled_unique (store : Store) (sound : store.Sound) (book : Book) (key : OpKey) (r s : Ref)
    (settled : store.Settled book key r) (again : store.Settled book key s) : r = s := by
  cases key with
  | combine op f g => exact combines_unique store sound op f g r s settled again
  | negate f => exact negates_unique store sound f r s settled again
  | choose f g h => exact chooses_unique store sound f g h r s settled again
  | quantify q f set => exact quantifies_unique store sound q f set r s settled again
  | rename f id =>
      obtain ⟨image, named, renames⟩ := settled
      obtain ⟨other, otherNamed, otherRenames⟩ := again
      obtain rfl := Option.some.inj (named.symm.trans otherNamed)
      exact renames_unique store sound image f r s renames otherRenames

theorem coherent_consult (store : Store) (book : Book) (coherent : store.Coherent book) (key : OpKey) :
    Store.Coherent { store with memo := (store.memo.consult key).2 } book := by
  have only : OnlyMemo store { store with memo := (store.memo.consult key).2 } := ⟨_, rfl⟩
  have same := only_memo_bare _ _ only
  refine coherent_extends store _ book coherent (sound_same _ _ same coherent.sound)
    (store.memo.sound_consult coherent.memo key) (bare_extends _ _ same) fun other r found => ?_
  rwa [Memo.find_consult] at found

theorem coherent_remember (store : Store) (book : Book) (coherent : store.Coherent book) (key : OpKey)
    (r : Ref) (operands : ∀ f ∈ key.operands, store.Live f) (settled : store.Settled book key r) :
    Store.Coherent { store with memo := store.memo.insert key r } book := by
  have only : OnlyMemo store { store with memo := store.memo.insert key r } := ⟨_, rfl⟩
  have same := only_memo_bare _ _ only
  have grown := bare_extends _ _ same
  refine ⟨sound_same _ _ same coherent.sound, store.memo.sound_insert coherent.memo key r,
    fun other s found f member => ?_, fun other s found => ?_⟩
  · rcases Memo.find_insert store.memo key other r s found with ⟨rfl, _⟩ | old
    · exact extends_live _ _ grown f (operands f member)
    · exact extends_live _ _ grown f (coherent.operands other s old f member)
  · rcases Memo.find_insert store.memo key other r s found with ⟨rfl, rfl⟩ | old
    · exact settled_extends _ _ grown book other s settled
    · exact settled_extends _ _ grown book other s (coherent.settled other s old)

structure Advances (book : Book) (old new : Store) : Prop where
  built : Builds old new
  coherent : new.Coherent book

theorem advances_refl (book : Book) (store : Store) (coherent : store.Coherent book) :
    Advances book store store := ⟨builds_refl store, coherent⟩

theorem advances_trans (book : Book) (a b c : Store) (ab : Advances book a b) (bc : Advances book b c) :
    Advances book a c := ⟨builds_trans a b c ab.built bc.built, bc.coherent⟩

theorem advances_extends (book : Book) (old new : Store) (advanced : Advances book old new) :
    Extends old new := builds_extends old new advanced.built

theorem advances_only_memo (book : Book) (a b c : Store) (advanced : Advances book a b)
    (only : OnlyMemo b c) (coherent : c.Coherent book) : Advances book a c :=
  ⟨builds_trans a b c advanced.built (only_memo_builds b c only), coherent⟩

end Store

namespace Action

open Store

theorem consult_run (key : OpKey) (store : Store) : consult key store =
    .ok (store.memo.find? key) { store with memo := (store.memo.consult key).2 } := by
  rw [← Memo.consult_found]
  rfl

theorem memoized_hit (key : OpKey) (work : Action Ref) (store : Store) (r : Ref)
    (found : store.memo.find? key = some r) :
    memoized key work store = .ok r { store with memo := (store.memo.consult key).2 } := by
  simp only [memoized, bind, EStateM.bind, consult_run, found]
  rfl

theorem memoized_miss (key : OpKey) (work : Action Ref) (store : Store)
    (missing : store.memo.find? key = none) :
    memoized key work store =
      (do let result ← work; remember key result; return result : Action Ref)
        { store with memo := (store.memo.consult key).2 } := by
  simp only [memoized, bind, EStateM.bind, consult_run, missing]

theorem advance_memoized (book : Book) (key : OpKey) (work : Action Ref) (store : Store)
    (coherent : store.Coherent book) (holds : Ref → Store → Prop) (failed : Prop)
    (settles : ∀ r later, Extends store later → later.Settled book key r → holds r later)
    (miss : ∀ next, OnlyMemo store next → next.Coherent book →
      Ends work next
        (fun r later => Advances book next later ∧ (∀ f ∈ key.operands, later.Live f) ∧
          later.Settled book key r)
        (fun _ later => Advances book next later ∧ failed)) :
    Ends (memoized key work) store (fun r next => Advances book store next ∧ holds r next)
      (fun _ next => Advances book store next ∧ failed) := by
  have only : OnlyMemo store { store with memo := (store.memo.consult key).2 } := ⟨_, rfl⟩
  have consulted := coherent_consult store book coherent key
  have advanced := advances_only_memo book store store _ (advances_refl book store coherent) only consulted
  cases found : store.memo.find? key with
  | some r =>
      rw [Ends, memoized_hit key work store r found]
      have grown := advances_extends book store _ advanced
      exact ⟨advanced, settles r _ grown (settled_extends _ _ grown book key r (coherent.settled key r found))⟩
  | none =>
      rw [Ends, memoized_miss key work store found]
      refine ends_bind work _ _ _ _ _ (ends_mono work _ _ _ _ _ (miss _ only consulted)
        (fun r later known => known) (fun fault later known => ?_)) fun r later known => ?_
      · exact ⟨advances_trans book _ _ _ advanced known.1, known.2⟩
      · obtain ⟨further, operands, settled⟩ := known
        have both := advances_trans book _ _ _ advanced further
        have last : OnlyMemo later { later with memo := later.memo.insert key r } := ⟨_, rfl⟩
        have remembered := coherent_remember later book further.coherent key r operands settled
        have whole := advances_only_memo book _ _ _ both last remembered
        have grown := bare_extends _ _ (only_memo_bare _ _ last)
        exact ⟨whole, settles r _ (advances_extends book _ _ whole)
          (settled_extends _ _ grown book key r settled)⟩

-- The action gives a, and leaves all but the table of results as it is.
def Replays {α : Type} (book : Book) (act : Action α) (store : Store) (a : α) : Prop :=
  ∃ next, act store = .ok a next ∧ OnlyMemo store next ∧ next.Coherent book

theorem replays_pure {α : Type} (book : Book) (store : Store) (coherent : store.Coherent book) (a : α) :
    Replays book (pure a) store a := ⟨store, rfl, only_memo_refl store, coherent⟩

theorem replays_bind {α β : Type} (book : Book) (act : Action α) (next : α → Action β) (store : Store)
    (a : α) (b : β) (first : Replays book act store a)
    (rest : ∀ later, OnlyMemo store later → later.Coherent book → Replays book (next a) later b) :
    Replays book (act >>= next) store b := by
  obtain ⟨later, done, only, coherent⟩ := first
  obtain ⟨final, finished, further, finalCoherent⟩ := rest later only coherent
  refine ⟨final, ?_, only_memo_trans _ _ _ only further, finalCoherent⟩
  simp only [bind, EStateM.bind, done, finished]

theorem replays_look {α β : Type} (book : Book) (look : Store → Except Fault α) (next : α → Action β)
    (store : Store) (a : α) (b : β) (seen : look store = .ok a) (rest : Replays book (next a) store b) :
    Replays book (inspect look >>= next) store b := by
  obtain ⟨final, finished, only, coherent⟩ := rest
  exact ⟨final, by simpa only [bind, EStateM.bind, inspect, seen] using finished, only, coherent⟩

theorem replays_memoized (book : Book) (key : OpKey) (work : Action Ref) (store : Store)
    (coherent : store.Coherent book) (r : Ref) (operands : ∀ f ∈ key.operands, store.Live f)
    (settled : store.Settled book key r)
    (replay : ∀ next, OnlyMemo store next → next.Coherent book → Replays book work next r) :
    Replays book (memoized key work) store r := by
  have consulted := coherent_consult store book coherent key
  cases found : store.memo.find? key with
  | some s =>
      have same := settled_unique store coherent.sound book key s r (coherent.settled key s found) settled
      subst same
      exact ⟨_, memoized_hit key work store s found, ⟨_, rfl⟩, consulted⟩
  | none =>
      obtain ⟨later, done, only, laterCoherent⟩ := replay _ ⟨_, rfl⟩ consulted
      have both : OnlyMemo store later := only_memo_trans _ _ _ ⟨_, rfl⟩ only
      have grown := bare_extends _ _ (only_memo_bare _ _ both)
      refine ⟨{ later with memo := later.memo.insert key r }, ?_, only_memo_trans _ _ _ both ⟨_, rfl⟩, ?_⟩
      · rw [memoized_miss key work store found]
        simp only [bind, EStateM.bind, done]
        rfl
      · exact coherent_remember later book laterCoherent key r
          (fun f member => extends_live _ _ grown f (operands f member))
          (settled_extends _ _ grown book key r settled)

theorem bare_memoized (book : Book) (key : OpKey) (work : Action Ref) (left right : Store)
    (stores : left.bare = right.bare) (leftCoherent : left.Coherent book)
    (rightCoherent : right.Coherent book)
    (replay : ∀ r store, left.bare = store.bare → store.Coherent book → store.Settled book key r →
      (∀ f ∈ key.operands, store.Live f) → Replays book (memoized key work) store r)
    (same : ∀ a b, OnlyMemo left a → OnlyMemo right b → a.Coherent book → b.Coherent book →
      bare (work a) = bare (work b)) :
    bare (memoized key work left) = bare (memoized key work right) := by
  -- a result found in one table is what working it out over the other comes to
  have answer : ∀ r store, left.bare = store.bare → store.Coherent book → store.Settled book key r →
      (∀ f ∈ key.operands, store.Live f) → bare (memoized key work store) = .ok r left.bare := by
    intro r store alike coherent settled operands
    obtain ⟨next, done, only, _⟩ := replay r store alike coherent settled operands
    rw [done, bare, alike, only_memo_bare _ _ only]
  have across := bare_extends left right stores
  have back := bare_extends right left stores.symm
  cases leftFound : left.memo.find? key with
  | some r =>
      have settled := leftCoherent.settled key r leftFound
      have operands := leftCoherent.operands key r leftFound
      rw [answer r left rfl leftCoherent settled operands,
        answer r right stores rightCoherent (settled_extends _ _ across book key r settled)
          (fun f member => extends_live _ _ across f (operands f member))]
  | none =>
      cases rightFound : right.memo.find? key with
      | some r =>
          have settled := rightCoherent.settled key r rightFound
          have operands := rightCoherent.operands key r rightFound
          rw [answer r right stores rightCoherent settled operands,
            answer r left rfl leftCoherent (settled_extends _ _ back book key r settled)
              (fun f member => extends_live _ _ back f (operands f member))]
      | none =>
          rw [memoized_miss key work left leftFound, memoized_miss key work right rightFound]
          refine bare_bind work _ _ _ ?_ fun r a b _ _ alike => ?_
          · exact same _ _ ⟨_, rfl⟩ ⟨_, rfl⟩ (coherent_consult left book leftCoherent key)
              (coherent_consult right book rightCoherent key)
          · exact congrArg (EStateM.Result.ok r) alike

end Action
end DomainDiagram
