import DomainDiagram.Proofs.Collecting
import DomainDiagram.Proofs.Tables
import DomainDiagram.Workspace

set_option autoImplicit false

namespace DomainDiagram

namespace Renaming

theorem put_all_drawn (names : Renaming) (fresh : Nat) (pairs : List (Var × Var)) :
    names.putAll fresh pairs = (names, fresh) ∨
      (fresh ≤ (names.putAll fresh pairs).1.id ∧
        (names.putAll fresh pairs).1.id < (names.putAll fresh pairs).2) := by
  induction pairs generalizing names fresh with
  | nil => exact .inl rfl
  | cons pair rest ih =>
      obtain ⟨v, w⟩ := pair
      right
      rw [putAll]
      rcases ih (names.put fresh v w) (fresh + 1) with same | ⟨above, below⟩
      · rw [same]
        exact ⟨Nat.le_refl fresh, Nat.lt_succ_self fresh⟩
      · exact ⟨Nat.le_of_succ_le above, below⟩

theorem put_all_fresh (names : Renaming) (fresh : Nat) (pairs : List (Var × Var)) :
    fresh ≤ (names.putAll fresh pairs).2 := by
  rcases names.put_all_drawn fresh pairs with same | ⟨above, below⟩
  · exact Nat.le_of_eq (congrArg Prod.snd same).symm
  · exact Nat.le_of_lt (Nat.lt_of_le_of_lt above below)

theorem put_blocks_drawn (names : Renaming) (fresh : Nat) (pairs : List BlockPair) :
    names.putBlocks fresh pairs = (names, fresh) ∨
      (fresh ≤ (names.putBlocks fresh pairs).1.id ∧
        (names.putBlocks fresh pairs).1.id < (names.putBlocks fresh pairs).2) := by
  induction pairs generalizing names fresh with
  | nil => exact .inl rfl
  | cons pair rest ih =>
      have step : names.putBlocks fresh (pair :: rest) =
        (names.putAll fresh pair.vars).1.putBlocks (names.putAll fresh pair.vars).2 rest := rfl
      rw [step]
      rcases ih (names.putAll fresh pair.vars).1 (names.putAll fresh pair.vars).2 with same | ⟨above, below⟩
      · rw [same]
        exact names.put_all_drawn fresh pair.vars
      · exact .inr ⟨Nat.le_trans (names.put_all_fresh fresh pair.vars) above, below⟩

end Renaming

-- The renaming that a command may change in place.
def Command.changed : Command → Option Nat
  | .clearRenaming p => some p
  | .pair _ p _ _ => some p
  | .pairBlocks _ _ p _ _ => some p
  | .pairAll _ _ p _ => some p
  | _ => none

namespace Workspace

def run (ws : Workspace) (commands : List Command) : Workspace :=
  commands.foldl (fun ws command => (ws.perform command).workspace) ws

def Reachable (ws : Workspace) : Prop := ∃ commands, empty.run commands = ws

-- Every identity stands for one renaming, and those to come for none so far.
structure Booked (ws : Workspace) (book : Book) : Prop where
  current : ∀ (p : Nat) (names : Renaming), ws.renamings[p]? = some names → book names.id = some names.image
  fresh : ∀ id, ws.nextRenaming ≤ id → book id = none

def Trusted (ws : Workspace) (book : Book) : Prop :=
  ∀ (m : Nat) (store : Store), ws.stores[m]? = some store → store.Coherent book

def Steady (old new : Workspace) : Prop :=
  ∀ (m : Nat) (store : Store), old.stores[m]? = some store → ∃ next, new.stores[m]? = some next ∧ store.Steady next

-- The renamings of the new workspace are those of the old one, but for one
-- that is new in its place: a copy, or one that has drawn an identity.
structure Enters (book : Book) (old new : Workspace) (names : Renaming) : Prop where
  others : ∀ (p : Nat) (other : Renaming), new.renamings[p]? = some other →
    (∃ q : Nat, old.renamings[q]? = some other) ∨ other = names
  drawn : (book names.id = some names.image ∧ new.nextRenaming = old.nextRenaming) ∨
    (old.nextRenaming ≤ names.id ∧ names.id < new.nextRenaming)

-- A renaming that has come in brings its meaning to the book; an identity
-- once entered stays as it is.
theorem booked_next (ws later : Workspace) (book : Book) (booked : ws.Booked book) (names : Renaming)
    (enters : Enters book ws later names) :
    ∃ next : Book, (∀ id image, book id = some image → next id = some image) ∧ later.Booked next := by
  rcases enters.drawn with ⟨known, same⟩ | ⟨above, below⟩
  · refine ⟨book, fun _ _ entered => entered, fun p other found => ?_, fun id new => ?_⟩
    · rcases enters.others p other found with ⟨q, old⟩ | rfl
      · exact booked.current q other old
      · exact known
    · exact booked.fresh id (same ▸ new)
  · have unknown := booked.fresh names.id above
    refine ⟨Function.update book names.id (some names.image), fun id image entered => ?_,
      fun p other found => ?_, fun id new => ?_⟩
    · have different : id ≠ names.id := by
        rintro rfl
        rw [unknown] at entered
        exact nomatch entered
      rw [Function.update_of_ne different, entered]
    · rcases enters.others p other found with ⟨q, old⟩ | rfl
      · have entered := booked.current q other old
        have different : other.id ≠ names.id := by
          intro same
          rw [same, unknown] at entered
          exact nomatch entered
        rw [Function.update_of_ne different, entered]
      · exact Function.update_self ..
    · have different : id ≠ names.id := by omega
      rw [Function.update_of_ne different]
      exact booked.fresh id (by omega)

theorem on_store_run {α : Type} (ws : Workspace) (m : Nat) (request : Request α)
    (answer : α → Store → Workspace → Reply) : ws.onStore m request answer =
      match ws.stores[m]? with
      | none => ws.refuse .absent
      | some store =>
          match request store with
          | .ok a next => answer a next (ws.setStore m next)
          | .error failure next => (ws.setStore m next).refuse failure := by
  have put : ∀ next, setStore { ws with stores := ws.stores.setIfInBounds m .blank } m next =
      ws.setStore m next := by
    intro next
    simp only [setStore, Array.setIfInBounds_setIfInBounds]
  unfold onStore detach
  cases ws.stores[m]? with
  | none => rfl
  | some store =>
      cases outcome : request store <;> simp only [put, outcome]

theorem on_store_cases {α : Type} (ws : Workspace) (m : Nat) (request : Request α)
    (answer : α → Store → Workspace → Reply) :
    ws.onStore m request answer = ws.refuse .absent ∨ ∃ store, ws.stores[m]? = some store ∧
      ((∃ a next, request store = .ok a next ∧ ws.onStore m request answer = answer a next (ws.setStore m next)) ∨
        ∃ failure next, request store = .error failure next ∧
          ws.onStore m request answer = (ws.setStore m next).refuse failure) := by
  rw [on_store_run]
  cases found : ws.stores[m]? with
  | none => exact .inl rfl
  | some store =>
      refine .inr ⟨store, rfl, ?_⟩
      cases outcome : request store with
      | ok a next => exact .inl ⟨a, next, rfl, by simp only [outcome]⟩
      | error failure next => exact .inr ⟨failure, next, rfl, by simp only [outcome]⟩

theorem on_store_done {α : Type} (ws : Workspace) (m : Nat) (request : Request α)
    (answer : α → Store → Workspace → Reply) (value : Answer)
    (done : (ws.onStore m request answer).outcome = .ok value) : ∃ (store next : Store) (a : α),
      ws.stores[m]? = some store ∧ request store = .ok a next ∧
        ws.onStore m request answer = answer a next (ws.setStore m next) := by
  rcases on_store_cases ws m request answer with
    absent | ⟨store, found, ⟨a, next, ran, answered⟩ | ⟨failure, next, _, refused⟩⟩
  · exact nomatch (congrArg Reply.outcome absent).symm.trans done
  · exact ⟨store, next, a, found, ran, answered⟩
  · exact nomatch (congrArg Reply.outcome refused).symm.trans done

theorem found_done {α : Type} (ws : Workspace) (named : Except Failure α) (next : α → Reply) (value : Answer)
    (done : (ws.found named next).outcome = .ok value) : ∃ a, named = .ok a ∧ ws.found named next = next a := by
  cases outcome : named with
  | ok a => exact ⟨a, rfl, rfl⟩
  | error failure =>
      rw [outcome] at done
      exact nomatch done

def Keeps (book : Book) (old new : Workspace) : Prop := Steady old new ∧ Trusted new book

theorem keeps_same (book : Book) (ws later : Workspace) (trusted : ws.Trusted book)
    (same : later.stores = ws.stores) : Keeps book ws later :=
  ⟨fun _ store found => ⟨store, same ▸ found, Store.steady_refl store⟩,
    fun m store found => trusted m store (same ▸ found)⟩

theorem keeps_set (book : Book) (ws : Workspace) (trusted : ws.Trusted book) (m : Nat)
    (store next : Store) (found : ws.stores[m]? = some store) (steady : store.Steady next)
    (coherent : next.Coherent book) : Keeps book ws (ws.setStore m next) := by
  have inside : m < ws.stores.size := (Array.getElem?_eq_some_iff.mp found).1
  have here : (ws.setStore m next).stores[m]? = some next := Array.getElem?_setIfInBounds_self_of_lt inside
  have elsewhere : ∀ k, k ≠ m → (ws.setStore m next).stores[k]? = ws.stores[k]? := fun k different =>
    Array.getElem?_setIfInBounds_ne (Ne.symm different)
  constructor
  · intro k other otherFound
    by_cases same : k = m
    · subst same
      obtain rfl := Option.some.inj (found.symm.trans otherFound)
      exact ⟨next, here, steady⟩
    · exact ⟨other, (elsewhere k same).trans otherFound,
        Store.follows_steady other other (Store.follows_refl other)⟩
  · intro k other otherFound
    by_cases same : k = m
    · subst same
      obtain rfl := Option.some.inj (here.symm.trans otherFound)
      exact coherent
    · exact trusted k other ((elsewhere k same).symm.trans otherFound)

theorem keeps_after (book : Book) (ws middle later : Workspace) (keeps : Keeps book ws middle)
    (same : later.stores = middle.stores) : Keeps book ws later := by
  obtain ⟨steady, trusted⟩ := keeps
  refine ⟨fun m store found => ?_, fun m store found => trusted m store (same ▸ found)⟩
  obtain ⟨next, nextFound, kept⟩ := steady m store found
  exact ⟨next, same ▸ nextFound, kept⟩

theorem keeps_on_store {α : Type} (book : Book) (ws : Workspace) (trusted : ws.Trusted book) (m : Nat)
    (request : Request α) (answer : α → Store → Workspace → Reply)
    (ends : ∀ store, store.Coherent book →
      Action.Ends request store (fun _ next => store.Steady next ∧ next.Coherent book)
        (fun _ next => store.Steady next ∧ next.Coherent book))
    (still : ∀ a store later, (answer a store later).workspace.stores = later.stores) :
    Keeps book ws (ws.onStore m request answer).workspace := by
  rw [on_store_run]
  cases found : ws.stores[m]? with
  | none => exact keeps_same book ws _ trusted rfl
  | some store =>
      have known := ends store (trusted m store found)
      unfold Action.Ends at known
      cases outcome : request store with
      | ok a next =>
          rw [outcome] at known
          have kept := keeps_set book ws trusted m store next found known.1 known.2
          simp only [outcome]
          exact keeps_after book ws _ _ kept (still a next _)
      | error failure next =>
          rw [outcome] at known
          simp only [outcome]
          exact keeps_set book ws trusted m store next found known.1 known.2

theorem keeps_regular {α : Type} (book : Book) (ws : Workspace) (trusted : ws.Trusted book) (m : Nat)
    (request : Request α) (answer : α → Store → Workspace → Reply) (regular : Action.Regular book request)
    (still : ∀ a store later, (answer a store later).workspace.stores = later.stores) :
    Keeps book ws (ws.onStore m request answer).workspace := by
  refine keeps_on_store book ws trusted m request answer (fun store coherent => ?_) still
  exact Action.ends_mono request store _ _ _ _ (regular.ends store coherent)
    (fun _ next known => ⟨Store.follows_steady store next known.1, known.2⟩)
    (fun _ next known => ⟨Store.follows_steady store next known.1, known.2⟩)

theorem keeps_found {α : Type} (book : Book) (ws : Workspace) (trusted : ws.Trusted book)
    (named : Except Failure α) (next : α → Reply)
    (keeps : ∀ a, named = .ok a → Keeps book ws (next a).workspace) :
    Keeps book ws (ws.found named next).workspace := by
  unfold found
  cases outcome : named with
  | ok a => exact keeps a outcome
  | error failure => exact keeps_same book ws _ trusted rfl

theorem create_run (id : Nat) (config : Config) : Store.create id config =
    if config.cacheBits ≤ Memo.maxBits then
      .ok ⟨id, config, #[.live Node.terminal, .live Node.terminal], #[0, 0], [], #[], 0,
        .empty config.cacheBits⟩
    else .error (.tooManySlots config.cacheBits) := by
  unfold Store.create Memo.create
  by_cases fits : config.cacheBits ≤ Memo.maxBits
  · simp only [if_pos fits]
  · simp only [if_neg fits]

theorem create_coherent (book : Book) (id : Nat) (config : Config) (store : Store)
    (made : Store.create id config = .ok store) : store.Coherent book := by
  rw [create_run] at made
  by_cases fits : config.cacheBits ≤ Memo.maxBits
  · rw [if_pos fits] at made
    obtain rfl := Except.ok.inj made
    have terminals : ∀ f : Nat, 2 ≤ f →
        (#[Slot.live Node.terminal, .live Node.terminal])[f]? = none := by
      intro f large
      exact Array.getElem?_eq_none_iff.mpr large
    have none : ∀ f node, ¬ Store.Tests ⟨id, config, #[.live Node.terminal, .live Node.terminal], #[0, 0], [],
        #[], 0, .empty config.cacheBits⟩ f node := by
      rintro f node ⟨large, slot⟩
      rw [terminals f large] at slot
      exact nomatch slot
    refine ⟨⟨rfl, rfl, rfl, List.nodup_nil, fun f => ⟨nofun, fun ⟨large, slot⟩ => ?_⟩, nofun,
      fun f node tests => absurd tests (none f node), fun f node tests => absurd tests (none f node),
      fun f node tests => absurd tests (none f node), rfl, ?_, ?_⟩, Memo.sound_empty _, ?_, ?_⟩
    · rw [terminals f large] at slot
      exact nomatch slot
    · intro i level at_place
      simp at at_place
    · intro i level at_place
      simp at at_place
    · intro key r found
      rw [Memo.find_empty] at found
      exact nomatch found
    · intro key r found
      rw [Memo.find_empty] at found
      exact nomatch found
  · rw [if_neg fits] at made
    exact nomatch made

theorem new_store_run (ws : Workspace) (config : Config) : ws.newStore config =
    if config.capacityFits then
      match Store.create ws.nextStore config with
      | .ok store =>
          ⟨.ok (.store ws.stores.size ws.nextStore), [.created ws.nextStore config],
            { ws with nextStore := ws.nextStore + 1, stores := ws.stores.push store }⟩
      | .error fault =>
          ⟨.error (.broken fault), [.created ws.nextStore config], { ws with nextStore := ws.nextStore + 1 }⟩
    else ws.refuse (.broken .capacityOverflow) := rfl

theorem keeps_new_store (book : Book) (ws : Workspace) (trusted : ws.Trusted book) (config : Config) :
    Keeps book ws (ws.newStore config).workspace := by
  rw [new_store_run]
  split
  · cases made : Store.create ws.nextStore config with
    | error fault => exact keeps_same book ws _ trusted rfl
    | ok store =>
        have stored : ∀ k : Nat, (ws.stores.push store)[k]? =
            if k = ws.stores.size then some store else ws.stores[k]? := fun k => Array.getElem?_push
        constructor
        · intro m old found
          have inside : m < ws.stores.size := (Array.getElem?_eq_some_iff.mp found).1
          refine ⟨old, ?_, Store.steady_refl old⟩
          exact (stored m).trans ((if_neg (Nat.ne_of_lt inside)).trans found)
        · intro m other found
          have found := (stored m).symm.trans found
          split at found
          · obtain rfl := Option.some.inj found
            exact create_coherent book ws.nextStore config store made
          · exact trusted m other found
  · exact keeps_same book ws _ trusted rfl

theorem teardown_run (ws : Workspace) (m t : Nat) : ws.teardown m t =
    ws.found (ws.table t) fun table =>
      match ws.stores[m]? with
      | none => ws.refuse .absent
      | some store =>
          match (table.teardown store).1 with
          | .ok () => ⟨.ok .done, [.tornDown table.size],
              (ws.setStore m (table.teardown store).2.2).setTable t (table.teardown store).2.1⟩
          | .error (.broken fault) => ⟨.error (.broken fault), [.tornDown table.size],
              (ws.setStore m (table.teardown store).2.2).setTable t (table.teardown store).2.1⟩
          | .error failure =>
              ((ws.setStore m (table.teardown store).2.2).setTable t (table.teardown store).2.1).refuse failure := by
  have put : ∀ next, setStore { ws with stores := ws.stores.setIfInBounds m .blank } m next =
      ws.setStore m next := by
    intro next
    simp only [setStore, Array.setIfInBounds_setIfInBounds]
  unfold teardown found detach
  cases ws.table t with
  | error failure => rfl
  | ok table =>
      cases ws.stores[m]? with
      | none => rfl
      | some store =>
          rcases outcome : (table.teardown store).1 with (_ | _ | _) | _ <;> simp only [put, outcome]

theorem keeps_teardown (book : Book) (ws : Workspace) (trusted : ws.Trusted book) (m t : Nat) :
    Keeps book ws (ws.teardown m t).workspace := by
  rw [teardown_run]
  refine keeps_found book ws trusted _ _ fun table _ => ?_
  cases found : ws.stores[m]? with
  | none => exact keeps_same book ws _ trusted rfl
  | some store =>
      obtain ⟨follows, coherent⟩ := table.teardown_kept book store (trusted m store found)
      have kept := keeps_set book ws trusted m store _ found (Store.follows_steady _ _ follows) coherent
      simp only
      split
      · exact keeps_after book ws _ _ kept rfl
      · exact keeps_after book ws _ _ kept rfl
      · exact keeps_after book ws _ _ kept rfl

theorem pair_as_run (ws : Workspace) (m t p : Nat)
    (plan : BlockTable → Store → List BlockPair × Except Refusal Unit) : ws.pairAs m t p plan =
      ws.found (ws.store m) fun store =>
        ws.found (ws.table t) fun table =>
          ws.found (ws.names p) fun names =>
            ⟨match (plan table store).2 with
              | .ok () => .ok .done
              | .error refusal => .error (.refused refusal),
              (plan table store).1.flatMap Event.ofPair,
              ws.setNames p (names.putBlocks ws.nextRenaming (plan table store).1).1
                (names.putBlocks ws.nextRenaming (plan table store).1).2⟩ := by
  have planned : ∀ (table : BlockTable) (store : Store) (names : Renaming),
      (match (plan table store).2 with
        | .ok () => Reply.mk (.ok .done) ((plan table store).1.flatMap Event.ofPair)
            (ws.setNames p (names.putBlocks ws.nextRenaming (plan table store).1).1
              (names.putBlocks ws.nextRenaming (plan table store).1).2)
        | .error refusal => Reply.mk (.error (.refused refusal)) ((plan table store).1.flatMap Event.ofPair)
            (ws.setNames p (names.putBlocks ws.nextRenaming (plan table store).1).1
              (names.putBlocks ws.nextRenaming (plan table store).1).2)) =
      ⟨match (plan table store).2 with
        | .ok () => .ok .done
        | .error refusal => .error (.refused refusal),
        (plan table store).1.flatMap Event.ofPair,
        ws.setNames p (names.putBlocks ws.nextRenaming (plan table store).1).1
          (names.putBlocks ws.nextRenaming (plan table store).1).2⟩ := by
    intro table store names
    cases (plan table store).2 <;> rfl
  simp only [← planned]
  rfl

theorem keeps_pair_as (book : Book) (ws : Workspace) (trusted : ws.Trusted book) (m t p : Nat)
    (plan : BlockTable → Store → List BlockPair × Except Refusal Unit) :
    Keeps book ws (ws.pairAs m t p plan).workspace := by
  rw [pair_as_run]
  refine keeps_found book ws trusted _ _ fun store _ => ?_
  refine keeps_found book ws trusted _ _ fun table _ => ?_
  refine keeps_found book ws trusted _ _ fun names _ => ?_
  exact keeps_same book ws _ trusted rfl

@[simp] theorem names_found (ws : Workspace) (p : Nat) (names : Renaming) :
    ws.names p = .ok names ↔ ws.renamings[p]? = some names := by
  unfold Workspace.names
  split <;> simp_all

theorem perform_keeps (book : Book) (ws : Workspace) (booked : ws.Booked book) (trusted : ws.Trusted book)
    (command : Command) : Keeps book ws (ws.perform command).workspace := by
  cases command with
  | newStore config => exact keeps_new_store book ws trusted config
  | newVars m n => exact keeps_regular book ws trusted m _ _ (Action.regular_new_vars book n) fun _ _ _ => rfl
  | construct m construction =>
      exact keeps_regular book ws trusted m _ _
        (Action.regular_perform book _ (Action.regular_construction book construction)) fun _ _ _ => rfl
  | rename m p f =>
      refine keeps_found book ws trusted _ _ fun names named => ?_
      have current := booked.current p names ((names_found ws p names).mp named)
      exact keeps_regular book ws trusted m _ _
        (Action.regular_perform book _ (Action.regular_rename book names current f)) fun _ _ _ => rfl
  | hold m f =>
      exact keeps_regular book ws trusted m _ _ (Action.regular_perform book _ (Action.regular_hold book f))
        fun _ _ _ => rfl
  | release m f =>
      exact keeps_regular book ws trusted m _ _ (Action.regular_perform book _ (Action.regular_release book f))
        fun _ _ _ => rfl
  | collect m =>
      refine keeps_on_store book ws trusted m _ _ (fun store coherent => ?_) fun _ _ _ => rfl
      refine Action.ends_perform _ store _ _ ?_
      exact Action.ends_mono _ store _ _ _ _ (Action.collect_ends book store coherent)
        (fun _ _ known => known) (fun _ _ impossible => impossible.elim)
  | extend m t sizes =>
      refine keeps_found book ws trusted _ _ fun table _ => ?_
      exact keeps_regular book ws trusted m _ _ (Action.regular_extend book table sizes) fun _ _ _ => rfl
  | overlap m t left right =>
      refine keeps_found book ws trusted _ _ fun table _ => ?_
      exact keeps_regular book ws trusted m _ _ (Action.regular_overlap book table left right)
        fun _ _ _ => rfl
  | teardown m t => exact keeps_teardown book ws trusted m t
  | encode m t encoding =>
      refine keeps_found book ws trusted _ _ fun table _ => ?_
      exact keeps_regular book ws trusted m _ _ (Action.regular_encoding book table encoding)
        fun _ _ _ => rfl
  | newTable => exact keeps_same book ws _ trusted rfl
  | newRenaming => exact keeps_same book ws _ trusted rfl
  | copyRenaming p =>
      refine keeps_found book ws trusted _ _ fun names _ => ?_
      exact keeps_same book ws _ trusted rfl
  | clearRenaming p =>
      refine keeps_found book ws trusted _ _ fun names _ => ?_
      exact keeps_same book ws _ trusted rfl
  | pair m p v w =>
      refine keeps_found book ws trusted _ _ fun store _ => ?_
      refine keeps_found book ws trusted _ _ fun names _ => ?_
      split
      · exact keeps_same book ws _ trusted rfl
      · exact keeps_same book ws _ trusted rfl
  | pairBlocks m t p source target => exact keeps_pair_as book ws trusted m t p _
  | pairAll m t p pairs => exact keeps_pair_as book ws trusted m t p _

def SameNames (old new : Workspace) : Prop :=
  new.renamings = old.renamings ∧ new.nextRenaming = old.nextRenaming

theorem same_names_found {α : Type} (ws : Workspace) (named : Except Failure α) (next : α → Reply)
    (same : ∀ a, named = .ok a → SameNames ws (next a).workspace) :
    SameNames ws (ws.found named next).workspace := by
  unfold found
  cases outcome : named with
  | ok a => exact same a outcome
  | error failure => exact ⟨rfl, rfl⟩

theorem same_names_on_store {α : Type} (ws : Workspace) (m : Nat) (request : Request α)
    (answer : α → Store → Workspace → Reply)
    (still : ∀ a store later, SameNames later (answer a store later).workspace) :
    SameNames ws (ws.onStore m request answer).workspace := by
  rw [on_store_run]
  cases ws.stores[m]? with
  | none => exact ⟨rfl, rfl⟩
  | some store =>
      simp only
      cases request store with
      | ok a next => exact still a next (ws.setStore m next)
      | error failure next => exact ⟨rfl, rfl⟩

theorem same_names_teardown (ws : Workspace) (m t : Nat) : SameNames ws (ws.teardown m t).workspace := by
  rw [teardown_run]
  refine same_names_found ws _ _ fun table _ => ?_
  cases ws.stores[m]? with
  | none => exact ⟨rfl, rfl⟩
  | some store =>
      simp only
      split <;> exact ⟨rfl, rfl⟩

-- Of the renamings one at most has come in. It is an old one in a new place, or
-- it bears an identity that was still to be drawn.
structure Draws (old new : Workspace) (names : Renaming) : Prop where
  others : ∀ (p : Nat) (other : Renaming), new.renamings[p]? = some other →
    (∃ q : Nat, old.renamings[q]? = some other) ∨ other = names
  drawn : ((∃ q : Nat, old.renamings[q]? = some names) ∧ new.nextRenaming = old.nextRenaming) ∨
    (old.nextRenaming ≤ names.id ∧ names.id < new.nextRenaming)

def Drawn (ws : Workspace) (names : Renaming) (next : Nat) : Prop :=
  ((∃ q : Nat, ws.renamings[q]? = some names) ∧ next = ws.nextRenaming) ∨
    (ws.nextRenaming ≤ names.id ∧ names.id < next)

theorem draws_set (ws : Workspace) (p : Nat) (names : Renaming) (next : Nat) (drawn : ws.Drawn names next) :
    Draws ws (ws.setNames p names next) names := by
  refine ⟨fun q other found => ?_, drawn⟩
  have stored : (ws.renamings.setIfInBounds p names)[q]? = some other := found
  by_cases same : p = q
  · subst same
    have inside : p < (ws.renamings.setIfInBounds p names).size := (Array.getElem?_eq_some_iff.mp stored).1
    rw [Array.size_setIfInBounds] at inside
    rw [Array.getElem?_setIfInBounds_self_of_lt inside] at stored
    exact .inr (Option.some.inj stored).symm
  · rw [Array.getElem?_setIfInBounds_ne same] at stored
    exact .inl ⟨q, stored⟩

theorem draws_add (ws : Workspace) (names : Renaming) (next : Nat) (drawn : ws.Drawn names next) :
    Draws ws (ws.addRenaming names next).workspace names := by
  refine ⟨fun q other found => ?_, drawn⟩
  have stored : (ws.renamings.push names)[q]? = some other := found
  rw [Array.getElem?_push] at stored
  split at stored
  · exact .inr (Option.some.inj stored).symm
  · exact .inl ⟨q, stored⟩

-- All that a command can do to the renamings, with the one that it may change.
inductive Rewrites (ws : Workspace) (changed : Option Nat) : Workspace → Prop where
  | same (later : Workspace) (same : SameNames ws later) : Rewrites ws changed later
  | added (names : Renaming) (next : Nat) (drawn : ws.Drawn names next) :
      Rewrites ws changed (ws.addRenaming names next).workspace
  | changed (p : Nat) (names : Renaming) (next : Nat) (asked : changed = some p) (drawn : ws.Drawn names next) :
      Rewrites ws changed (ws.setNames p names next)

theorem rewrites_found {α : Type} (ws : Workspace) (changed : Option Nat) (named : Except Failure α)
    (next : α → Reply) (rewrites : ∀ a, named = .ok a → Rewrites ws changed (next a).workspace) :
    Rewrites ws changed (ws.found named next).workspace := by
  unfold found
  cases outcome : named with
  | ok a => exact rewrites a outcome
  | error failure => exact .same ws ⟨rfl, rfl⟩

theorem rewrites_pair_as (ws : Workspace) (m t p : Nat)
    (plan : BlockTable → Store → List BlockPair × Except Refusal Unit) :
    Rewrites ws (some p) (ws.pairAs m t p plan).workspace := by
  rw [pair_as_run]
  refine rewrites_found ws _ _ _ fun store _ => ?_
  refine rewrites_found ws _ _ _ fun table _ => ?_
  refine rewrites_found ws _ _ _ fun names named => ?_
  refine .changed p _ _ rfl ((names.put_blocks_drawn ws.nextRenaming _).imp_left fun same => ?_)
  rw [same]
  exact ⟨⟨p, (names_found ws p names).mp named⟩, rfl⟩

theorem perform_rewrites (ws : Workspace) (command : Command) :
    Rewrites ws command.changed (ws.perform command).workspace := by
  cases command with
  | newStore config =>
      refine .same _ ?_
      rw [perform, new_store_run]
      split
      · split <;> exact ⟨rfl, rfl⟩
      · exact ⟨rfl, rfl⟩
  | newVars m n => exact .same _ (same_names_on_store ws m _ _ fun _ _ _ => ⟨rfl, rfl⟩)
  | construct m construction => exact .same _ (same_names_on_store ws m _ _ fun _ _ _ => ⟨rfl, rfl⟩)
  | rename m p f =>
      exact .same _ (same_names_found ws _ _ fun names _ => same_names_on_store ws m _ _ fun _ _ _ => ⟨rfl, rfl⟩)
  | hold m f => exact .same _ (same_names_on_store ws m _ _ fun _ _ _ => ⟨rfl, rfl⟩)
  | release m f => exact .same _ (same_names_on_store ws m _ _ fun _ _ _ => ⟨rfl, rfl⟩)
  | collect m => exact .same _ (same_names_on_store ws m _ _ fun _ _ _ => ⟨rfl, rfl⟩)
  | newTable => exact .same _ ⟨rfl, rfl⟩
  | extend m t sizes =>
      exact .same _ (same_names_found ws _ _ fun table _ => same_names_on_store ws m _ _ fun _ _ _ => ⟨rfl, rfl⟩)
  | overlap m t left right =>
      exact .same _ (same_names_found ws _ _ fun table _ => same_names_on_store ws m _ _ fun _ _ _ => ⟨rfl, rfl⟩)
  | teardown m t => exact .same _ (same_names_teardown ws m t)
  | encode m t encoding =>
      exact .same _ (same_names_found ws _ _ fun table _ => same_names_on_store ws m _ _ fun _ _ _ => ⟨rfl, rfl⟩)
  | newRenaming => exact .added _ _ (.inr ⟨Nat.le_refl _, Nat.lt_succ_self _⟩)
  | copyRenaming p =>
      refine rewrites_found ws _ _ _ fun names named => ?_
      exact .added names _ (.inl ⟨⟨p, (names_found ws p names).mp named⟩, rfl⟩)
  | clearRenaming p =>
      refine rewrites_found ws _ _ _ fun names _ => ?_
      exact .changed p _ _ rfl (.inr ⟨Nat.le_refl _, Nat.lt_succ_self _⟩)
  | pair m p v w =>
      refine rewrites_found ws _ _ _ fun store _ => ?_
      refine rewrites_found ws _ _ _ fun names _ => ?_
      split
      · exact .changed p _ _ rfl (.inr ⟨Nat.le_refl _, Nat.lt_succ_self _⟩)
      · exact .same _ ⟨rfl, rfl⟩
  | pairBlocks m t p source target => exact rewrites_pair_as ws m t p _
  | pairAll m t p pairs => exact rewrites_pair_as ws m t p _

def Redraws (old new : Workspace) : Prop := SameNames old new ∨ ∃ names, Draws old new names

theorem rewrites_redraws (old new : Workspace) (changed : Option Nat) (rewrites : Rewrites old changed new) :
    Redraws old new := by
  cases rewrites with
  | same _ same => exact .inl same
  | added names next drawn => exact .inr ⟨names, draws_add old names next drawn⟩
  | changed p names next _ drawn => exact .inr ⟨names, draws_set old p names next drawn⟩

theorem perform_redraws (ws : Workspace) (command : Command) : Redraws ws (ws.perform command).workspace :=
  rewrites_redraws ws _ command.changed (perform_rewrites ws command)

theorem redraws_drawn (old new : Workspace) (redraws : Redraws old new) : old.nextRenaming ≤ new.nextRenaming := by
  rcases redraws with ⟨_, ids⟩ | ⟨names, _, ⟨_, ids⟩ | ⟨above, below⟩⟩
  · exact Nat.le_of_eq ids.symm
  · exact Nat.le_of_eq ids.symm
  · exact Nat.le_of_lt (Nat.lt_of_le_of_lt above below)

def NamesFollow (book : Book) (old new : Workspace) : Prop :=
  SameNames old new ∨ ∃ names, Enters book old new names

theorem perform_names (book : Book) (ws : Workspace) (booked : ws.Booked book) (command : Command) :
    NamesFollow book ws (ws.perform command).workspace := by
  rcases perform_redraws ws command with same | ⟨names, others, drawn⟩
  · exact .inl same
  · refine .inr ⟨names, others, drawn.imp_left ?_⟩
    rintro ⟨⟨q, old⟩, same⟩
    exact ⟨booked.current q names old, same⟩

theorem perform_books (book : Book) (ws : Workspace) (booked : ws.Booked book) (command : Command) :
    ∃ next : Book, (∀ id image, book id = some image → next id = some image) ∧
      (ws.perform command).workspace.Booked next := by
  rcases perform_names book ws booked command with ⟨renamings, ids⟩ | ⟨names, enters⟩
  · exact ⟨book, fun _ _ entered => entered, fun p names found => booked.current p names (renamings ▸ found),
      fun id new => booked.fresh id (ids ▸ new)⟩
  · exact booked_next ws _ book booked names enters

theorem empty_booked : empty.Booked fun _ => none := ⟨nofun, fun _ _ => rfl⟩

theorem empty_trusted : empty.Trusted fun _ => none := nofun

theorem run_trusted (ws : Workspace) (book : Book) (booked : ws.Booked book) (trusted : ws.Trusted book)
    (commands : List Command) :
    ∃ next : Book, (∀ id image, book id = some image → next id = some image) ∧
      (ws.run commands).Booked next ∧ (ws.run commands).Trusted next := by
  induction commands generalizing ws book with
  | nil => exact ⟨book, fun _ _ entered => entered, booked, trusted⟩
  | cons command rest ih =>
      obtain ⟨_, stepTrusted⟩ := perform_keeps book ws booked trusted command
      obtain ⟨middle, kept, stepBooked⟩ := perform_books book ws booked command
      obtain ⟨last, further, lastBooked, lastTrusted⟩ := ih _ middle stepBooked fun m store found =>
        Store.coherent_book store book middle kept (stepTrusted m store found)
      exact ⟨last, fun id image entered => further id image (kept id image entered), lastBooked, lastTrusted⟩

theorem reachable_trusted (ws : Workspace) (reachable : ws.Reachable) :
    ∃ book, ws.Booked book ∧ ws.Trusted book := by
  obtain ⟨commands, rfl⟩ := reachable
  obtain ⟨book, _, booked, trusted⟩ := run_trusted empty _ empty_booked empty_trusted commands
  exact ⟨book, booked, trusted⟩

theorem reachable_run (ws : Workspace) (reachable : ws.Reachable) (commands : List Command) :
    (ws.run commands).Reachable := by
  obtain ⟨before, rfl⟩ := reachable
  exact ⟨before ++ commands, List.foldl_append ..⟩

end Workspace
end DomainDiagram
