import DomainDiagram.Proofs.Repeating
import DomainDiagram.Proofs.Spelling
import DomainDiagram.Proofs.Undisturbed
import Mathlib.Data.List.Zip

set_option autoImplicit false

namespace DomainDiagram

namespace Store

-- The first store with holds that it has not, and other results remembered.
structure Laden (book : Book) (first : Store) (held : List Ref) (store : Store) : Prop where
  alike : ∃ counts memo, store = { first with counts, memo }
  coherent : store.Coherent book
  tally : ∀ f, store.tally f = first.tally f + Ref.grips held f

theorem laden_refl (book : Book) (store : Store) (coherent : store.Coherent book) : store.Laden book [] store :=
  ⟨⟨store.counts, store.memo, rfl⟩, coherent, fun _ => rfl⟩

theorem laden_perm (book : Book) (first : Store) (held other : List Ref) (perm : held.Perm other) (store : Store)
    (laden : first.Laden book held store) : first.Laden book other store :=
  ⟨laden.alike, laden.coherent, fun f => Ref.grips_perm held other perm f ▸ laden.tally f⟩

theorem laden_only (book : Book) (first : Store) (held : List Ref) (store next : Store)
    (laden : first.Laden book held store) (only : OnlyMemo store next) (coherent : next.Coherent book) :
    first.Laden book held next := by
  obtain ⟨⟨counts, _, rfl⟩, _, tally⟩ := laden
  obtain ⟨memo, rfl⟩ := only
  exact ⟨⟨counts, memo, rfl⟩, coherent, tally⟩

theorem laden_terminal (book : Book) (first : Store) (held : List Ref) (f : Ref) (small : f ≤ 1) (store : Store)
    (laden : first.Laden book held store) : first.Laden book (f :: held) store :=
  ⟨laden.alike, laden.coherent, fun g => (Ref.grips_terminal f small held g).symm ▸ laden.tally g⟩

theorem counts_alike (left right : Store) (sizes : left.counts.size = right.counts.size)
    (tally : ∀ f, left.tally f = right.tally f) : left.counts = right.counts := by
  refine Array.ext sizes fun f inLeft inRight => ?_
  have same := tally f
  rwa [Store.tally, Store.tally, Array.getElem?_eq_getElem inLeft, Array.getElem?_eq_getElem inRight] at same

theorem laden_free (book : Book) (first : Store) (sound : first.Sound) (store : Store)
    (laden : first.Laden book [] store) : OnlyMemo first store := by
  obtain ⟨⟨counts, memo, rfl⟩, coherent, tally⟩ := laden
  have same : counts = first.counts :=
    counts_alike { first with counts, memo } first (coherent.sound.counted.trans sound.counted.symm) tally
  exact ⟨memo, by rw [same]⟩

end Store

namespace Action

open Store

-- As for actions that repeat, with some references held when the second begins
-- and none when it ends. It may break off where so many holds are too many.
structure Echoes {α : Type} (book : Book) (n : Nat) (held : List Ref) (act again : Action α) : Prop where
  regular : Regular book act
  echoes : ∀ (store next : Store) (a : α), store.Coherent book → act store = .ok a next →
    ∀ (first later : Store), Extends next later → first.Laden book held later →
      Ends again later (fun b final => b = a ∧ first.Laden book [] final) (fun fault _ => first.Crowded n fault)

section Rules

variable {α β : Type} {book : Book} {n : Nat} {held : List Ref}

theorem echoes_done (a : α) : Echoes book n [] (pure a) (pure a) := by
  refine ⟨regular_pure book a, fun store next b _ done first later _ laden => ?_⟩
  cases done
  exact ⟨rfl, laden⟩

theorem echoes_given {act again : Action α} {next onward : α → Action β} (repeats : Repeats book act again)
    (rest : ∀ a, Echoes book n held (next a) (onward a)) : Echoes book n held (act >>= next) (again >>= onward) := by
  refine ⟨regular_bind book act next repeats.regular fun a => (rest a).regular, ?_⟩
  intro store final b coherent done first later grown laden
  obtain ⟨a, middle, begun, ended⟩ := done_parts act next store final b done
  have known := regular_ok book act repeats.regular store middle a coherent begun
  have further := regular_ok book (next a) (rest a).regular middle final b known.2 ended
  obtain ⟨last, outcome, only, lastCoherent⟩ := repeats.replays store middle a coherent begun later
    (extends_trans middle final later further.1.grown grown) laden.coherent
  have kept := builds_extends later last (only_memo_builds later last only)
  refine ends_then again onward later last a _ _ outcome ?_
  exact (rest a).echoes middle final b known.2 ended first last (extends_trans final later last grown kept)
    (laden_only book first held later last laden only lastCoherent)

theorem echoes_held {f : Ref} {next onward : Ref → Action β} (few : held.length < n)
    (rest : Echoes book n (f :: held) (next f) (onward f)) :
    Echoes book n held (hold f >>= next) (hold f >>= onward) := by
  rw [hold_then f next, hold_then f onward]
  refine ⟨regular_bind book _ _ (regular_hold book f) fun _ => rest.regular, ?_⟩
  intro store final b coherent done first later grown laden
  obtain ⟨r, middle, begun, ended⟩ := done_parts _ _ store final b done
  have known := regular_ok book _ (regular_hold book f) store middle r coherent begun
  have further := regular_ok book _ rest.regular middle final b known.2 ended
  have inUse := (ends_ok _ store middle r _ _ (hold_recounts store f) begun).1
  have whole := extends_trans store middle later known.1.grown (extends_trans middle final later further.1.grown grown)
  have live := extends_live store later whole f inUse
  have tallied := ends_and _ later _ _ _ _ (hold_tally later f) (hold_breaks later laden.coherent.sound f live)
  have kept := ends_and _ later _ _ _ _ ((regular_hold book f).ends later laden.coherent) (hold_recounts later f)
  refine ends_bind _ _ later _ _ _ (ends_mono _ later _ _ _ _ (ends_and _ later _ _ _ _ kept tallied)
    (fun _ _ both => both) ?_) ?_
  · exact fun fault _ broken => grip_crowded fault n laden.tally few broken.2.2
  · rintro _ last ⟨⟨⟨follows, lastCoherent⟩, _, counts, rfl⟩, ⟨_, tally⟩, _⟩
    refine rest.echoes middle final b known.2 ended first _ (extends_trans final later _ grown follows.grown)
      ⟨?_, lastCoherent, grip_held _ laden.tally tally⟩
    obtain ⟨_, memo, alike⟩ := laden.alike
    exact ⟨counts, memo, by rw [alike]⟩

theorem echoes_released {f : Ref} {next onward : Action β} (rest : Echoes book n held next onward) :
    Echoes book n (f :: held) (do release f; next) (do release f; onward) := by
  refine ⟨regular_bind book _ _ (regular_release book f) fun _ => rest.regular, ?_⟩
  intro store final b coherent done first later grown laden
  obtain ⟨r, middle, begun, ended⟩ := done_parts _ _ store final b done
  have known := regular_ok book _ (regular_release book f) store middle r coherent begun
  have kept := ends_and _ later _ _ _ _ ((regular_release book f).ends later laden.coherent) (release_recounts later f)
  obtain ⟨_, last, outcome, ⟨⟨follows, lastCoherent⟩, counts, rfl⟩, spent⟩ :=
    ends_done (release f) later _ _ (ends_and _ later _ _ _ _ kept (release_tally later f)) fun _ _ broken => by
      obtain ⟨_, _, large, none⟩ := broken
      exact grip_kept laden.tally large none
  refine ends_then (release f) _ later _ () _ _ outcome ?_
  refine rest.echoes middle final b known.2 ended first _ (extends_trans final later _ grown follows.grown)
    ⟨?_, lastCoherent, grip_released _ laden.tally spent⟩
  obtain ⟨_, memo, alike⟩ := laden.alike
  exact ⟨counts, memo, by rw [alike]⟩

theorem echoes_perm {other : List Ref} {act again : Action α} (perm : held.Perm other)
    (echoes : Echoes book n other act again) : Echoes book n held act again := by
  refine ⟨echoes.regular, fun store next a coherent done first later grown laden => ?_⟩
  exact echoes.echoes store next a coherent done first later grown (laden_perm book first held other perm later laden)

theorem echoes_terminal {f : Ref} {act again : Action α} (small : f ≤ 1)
    (echoes : Echoes book n (f :: held) act again) : Echoes book n held act again := by
  refine ⟨echoes.regular, fun store next a coherent done first later grown laden => ?_⟩
  exact echoes.echoes store next a coherent done first later grown (laden_terminal book first held f small later laden)

end Rules

section Loops

variable (book : Book)

theorem echoes_spell (bits : List Var) (value : Nat) (done : Ref) :
    Echoes book 1 [] (spell bits value done) (spell bits value done) := by
  induction bits generalizing value done with
  | nil => exact echoes_done done
  | cons v rest ih =>
      refine echoes_held Nat.one_pos ?_
      refine echoes_given (repeats_literal book v _) fun bit => ?_
      refine echoes_given (repeats_combine book .and bit done) fun next => ?_
      exact echoes_released (ih (value / 2) next)

theorem echoes_at_most (bits : List Var) (value : Nat) (done : Ref) :
    Echoes book 2 [done] (atMost bits value done) (atMost bits value done) := by
  induction bits generalizing value done with
  | nil => exact echoes_released (echoes_done done)
  | cons v rest ih =>
      refine echoes_given (repeats_literal book v false) fun bit => ?_
      refine echoes_given (repeats_combine book _ bit done) fun next => ?_
      refine echoes_held (Nat.le_refl 2) ?_
      exact echoes_perm (.swap done next []) (echoes_released (ih (value / 2) next))

def matched (v w : Var) : Action Ref := do
  let left ← literal v true
  let right ← literal w true
  combine .biimp left right

theorem alike_cons (v w : Var) (rest : List (Var × Var)) (done : Ref) : alike ((v, w) :: rest) done = (do
    let bit ← matched v w
    let _ ← hold bit
    let next ← combine .and done bit
    let _ ← hold next
    release bit
    release done
    alike rest next) := by
  simp only [alike, matched, bind_assoc]

theorem repeats_matched (v w : Var) : Repeats book (matched v w) (matched v w) := by
  refine repeats_bind book _ _ _ _ (repeats_literal book v true) fun left => ?_
  exact repeats_bind book _ _ _ _ (repeats_literal book w true) fun right => repeats_combine book .biimp left right

-- In every pair the two bits may have changed places.
theorem echoes_alike (turn : Var × Var → Var × Var) (turned : ∀ pair, turn pair = pair ∨ turn pair = pair.swap)
    (pairs : List (Var × Var)) (done : Ref) :
    Echoes book 3 [done] (alike pairs done) (alike (pairs.map turn) done) := by
  induction pairs generalizing done with
  | nil => exact echoes_released (echoes_done done)
  | cons pair rest ih =>
      obtain ⟨v, w⟩ := pair
      have bits : Repeats book (matched v w) (matched (turn (v, w)).1 (turn (v, w)).2) := by
        rcases turned (v, w) with same | swapped
        · rw [same]
          exact repeats_matched book v w
        · rw [swapped]
          exact repeats_turned book .biimp _ _ _ _ (repeats_literal book v true) (repeats_literal book w true)
      rw [List.map_cons, ← Prod.mk.eta (p := turn (v, w)), alike_cons, alike_cons]
      refine echoes_given bits fun bit => ?_
      refine echoes_held (Nat.le_succ 2) ?_
      refine echoes_given (repeats_combine book .and done bit) fun next => ?_
      refine echoes_held (Nat.le_refl 3) ?_
      refine echoes_perm (.swap bit next [done]) (echoes_released ?_)
      exact echoes_perm (.swap done next []) (echoes_released (ih next))

theorem echoes_union (sets : List Ref) (done : Ref) : Echoes book 1 [] (union sets done) (union sets done) := by
  induction sets generalizing done with
  | nil => exact echoes_done done
  | cons set rest ih =>
      refine echoes_held Nat.one_pos ?_
      refine echoes_given (repeats_combine book .and set done) fun next => ?_
      exact echoes_released (ih next)

end Loops

theorem perform_done {α : Type} (act : Action α) (store next : Store) (a : α)
    (done : Request.perform act store = .ok a next) : act store = .ok a next := by
  rw [Request.perform] at done
  cases acted : act store with
  | ok b last =>
      rw [acted] at done
      obtain ⟨rfl, rfl⟩ := EStateM.Result.ok.inj done
      rfl
  | error fault last => simp only [acted, reduceCtorEq] at done

theorem asked_again {α β γ : Type} (book : Book) (n : Nat) (check : Store → Except Refusal α)
    (recheck : Store → Except Refusal β) (act : α → Action γ) (again : β → Action γ) (store next later : Store) (c : γ)
    (coherent : store.Coherent book) (done : Request.afterCheck check act store = .ok c next)
    (grown : Extends next later) (laterCoherent : later.Coherent book) (room : later.Spares n)
    (answers : ∀ a, check store = .ok a → ∃ b, recheck later = .ok b ∧ Echoes book n [] (act a) (again b)) :
    ∃ final, Request.afterCheck recheck again later = .ok c final ∧ OnlyMemo later final := by
  cases checked : check store with
  | error refusal => simp only [Request.afterCheck, checked, reduceCtorEq] at done
  | ok a =>
      obtain ⟨b, rechecked, echoes⟩ := answers a checked
      simp only [Request.afterCheck, checked] at done
      have acted := perform_done (act a) store next c done
      obtain ⟨_, final, outcome, rfl, laden⟩ := ends_done _ later _ _
        (echoes.echoes store next c coherent acted later later grown (laden_refl book later laterCoherent))
        fun fault _ => spares_uncrowded later n room fault
      refine ⟨final, ?_, laden_free book later laterCoherent.sound final laden⟩
      simp only [Request.afterCheck, rechecked, Request.perform, outcome]

end Action

def Encoding.indices : Encoding → List Nat
  | .value index _ => [index]
  | .legal index => [index]
  | .equal left right => [left, right]
  | .varset indices => indices

inductive Encoding.Restates : Encoding → Encoding → Prop where
  | same (encoding : Encoding) : Restates encoding encoding
  | turned (left right : Nat) : Restates (.equal left right) (.equal right left)

namespace BlockTable

open Store DomainDiagram.Action

structure Unchanged (id : Nat) (old new : BlockTable) (indices : List Nat) : Prop where
  owner : new.owner = none ∨ new.owner = some id
  blocks : ∀ i ∈ indices, new.blocks[i]? = old.blocks[i]?

theorem reads_again {α β : Type} (look other : α → Except Refusal β) (items : List α) (bs : List β)
    (same : ∀ a ∈ items, ∀ b, look a = .ok b → other a = .ok b) (read : items.mapM look = .ok bs) :
    items.mapM other = .ok bs := by
  induction items generalizing bs with
  | nil => exact read
  | cons a rest ih =>
      obtain ⟨first, others⟩ := List.forall_mem_cons.mp same
      rw [List.mapM_cons] at read ⊢
      obtain ⟨b, looked, later⟩ := bind_ok _ _ bs read
      obtain ⟨more, readMore, made⟩ := bind_ok _ _ bs later
      rw [first b looked, ih more others readMore]
      exact made

theorem block_found (table : BlockTable) (i : Nat) (block : Block) (listed : table.blocks[i]? = some block) :
    table.block i = .ok block := by
  simp only [BlockTable.block, listed]

section

variable (table other : BlockTable) (store later : Store) (indices : List Nat)
  (unchanged : table.Unchanged later.id other indices)
include unchanged

theorem owner_again : other.checkOwner later = .ok () := (check_owner_ok other later).mpr unchanged.owner

theorem block_again (i : Nat) (member : i ∈ indices) (block : Block) (listed : table.blocks[i]? = some block) :
    other.block i = .ok block :=
  block_found other i block ((unchanged.blocks i member).trans listed)

theorem value_again (index value : Nat) (member : index ∈ indices) (block : Block)
    (planned : table.planValue index value store = .ok block) : other.planValue index value later = .ok block := by
  obtain ⟨owned, listed⟩ := plan_value_ok table index value store block planned
  rw [← planned, planValue, planValue, owner_again table other later indices unchanged,
    (check_owner_ok table store).mpr owned, block_again table other later indices unchanged index member block listed,
    block_found table index block listed]

theorem legal_again (index : Nat) (member : index ∈ indices) (block : Block)
    (planned : table.planBlock index store = .ok block) : other.planBlock index later = .ok block := by
  have listed := (plan_block_ok table index store block planned).2
  rw [planBlock, owner_again table other later indices unchanged]
  exact block_again table other later indices unchanged index member block listed

theorem equal_again (left right : Nat) (inLeft : left ∈ indices) (inRight : right ∈ indices) (a b : Block)
    (planned : table.planEqual left right store = .ok (a, b)) :
    other.planEqual left right later = .ok (a, b) ∧ other.planEqual right left later = .ok (b, a) := by
  obtain ⟨owned, first, second⟩ := plan_equal_ok table left right store a b planned
  rw [planEqual, (check_owner_ok table store).mpr owned, block_found table left a first,
    block_found table right b second] at planned
  rw [planEqual, planEqual, owner_again table other later indices unchanged,
    block_again table other later indices unchanged left inLeft a first,
    block_again table other later indices unchanged right inRight b second]
  refine ⟨planned, ?_⟩
  by_cases size : a.size = b.size <;> by_cases width : a.width = b.width <;>
    simp [size, width, throw, throwThe, MonadExceptOf.throw, bind, Except.bind, pure, Except.pure] at planned ⊢

theorem union_again (named : List Nat) (inside : ∀ i ∈ named, i ∈ indices) (sets : List Ref)
    (planned : table.planUnion named store = .ok sets) : other.planUnion named later = .ok sets := by
  obtain ⟨_, _, read⟩ := bind_ok _ _ sets planned
  rw [planUnion, owner_again table other later indices unchanged]
  refine reads_again _ _ named sets (fun i member set looked => ?_) read
  obtain ⟨block, found, same⟩ := bind_ok (table.block i) (fun block => .ok block.varset) set looked
  rw [varset, block_again table other later indices unchanged i (inside i member) block (block_ok table i block found)]
  exact same

end

end BlockTable

namespace Encoding

open Store DomainDiagram.Action BlockTable

theorem run_again (book : Book) (table other : BlockTable) (encoding again : Encoding)
    (restates : encoding.Restates again) (store next later : Store) (r : Ref) (coherent : store.Coherent book)
    (done : encoding.run table store = .ok r next) (grown : Extends next later) (laterCoherent : later.Coherent book)
    (room : later.Roomy) (unchanged : table.Unchanged later.id other encoding.indices) :
    ∃ final, again.run other later = .ok r final ∧ OnlyMemo later final := by
  have spare : ∀ n ≤ 3, later.Spares n := fun n few => spares_fewer later 3 n few room
  have comes {α β : Type} := @asked_again α β Ref book
  cases restates with
  | same =>
      cases encoding with
      | value index value =>
          refine comes 1 _ _ _ _ store next later r coherent done grown laterCoherent (spare 1 (by omega)) ?_
          intro block planned
          exact ⟨block, value_again table other store later _ unchanged index value List.mem_cons_self block planned,
            echoes_spell book block.bits value 1⟩
      | legal index =>
          refine comes 2 _ _ _ _ store next later r coherent done grown laterCoherent (spare 2 (by omega)) ?_
          intro block planned
          exact ⟨block, legal_again table other store later _ unchanged index List.mem_cons_self block planned,
            echoes_terminal (Nat.le_refl 1) (echoes_at_most book block.bits (block.size - 1) 1)⟩
      | equal left right =>
          refine comes 3 _ _ _ _ store next later r coherent done grown laterCoherent (spare 3 (by omega)) ?_
          rintro ⟨a, b⟩ planned
          have same := equal_again table other store later _ unchanged left right (by simp [indices])
            (by simp [indices]) a b planned
          refine ⟨(a, b), same.1, ?_⟩
          have alone := echoes_alike book id (fun _ => .inl rfl) (a.bits.zip b.bits) 1
          rw [List.map_id] at alone
          exact echoes_held (Nat.succ_pos 2) alone
      | varset named =>
          refine comes 1 _ _ _ _ store next later r coherent done grown laterCoherent (spare 1 (by omega)) ?_
          intro sets planned
          exact ⟨sets, union_again table other store later _ unchanged named (fun _ member => member) sets planned,
            echoes_union book sets 1⟩
  | turned left right =>
      refine comes 3 _ _ _ _ store next later r coherent done grown laterCoherent (spare 3 (by omega)) ?_
      rintro ⟨a, b⟩ planned
      have same := equal_again table other store later _ unchanged left right (by simp [indices])
        (by simp [indices]) a b planned
      refine ⟨(b, a), same.2, ?_⟩
      have swapped := echoes_alike book Prod.swap (fun _ => .inr rfl) (a.bits.zip b.bits) 1
      rw [List.zip_swap] at swapped
      exact echoes_held (Nat.succ_pos 2) swapped

end Encoding
end DomainDiagram
