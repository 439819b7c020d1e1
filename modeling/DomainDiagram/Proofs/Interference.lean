import DomainDiagram.Proofs.Spelling
import DomainDiagram.Proofs.Standing
import DomainDiagram.Proofs.Substitution

set_option autoImplicit false

namespace DomainDiagram

open Store

namespace Command

def Spares (t : Nat) : Command → Prop
  | .teardown _ k => k ≠ t
  | _ => True

def Keeps (ws : Workspace) (m : Nat) (kept : List Ref) : Command → Prop
  | .collect k => k = m → ∀ store, ws.stores[m]? = some store → ∀ f ∈ kept, f ≤ 1 ∨ store.Held f
  | _ => True

end Command

def Workspace.Roomy (ws : Workspace) (m : Nat) : Prop := ∀ store, ws.stores[m]? = some store → store.Roomy

-- What a client may do while store m and table t are relied on.
structure Permitted (m t : Nat) (kept : List Ref) (ws : Workspace) (journal : Journal) (command : Command) :
    Prop where
  allowed : journal.Allows command
  spares : command.Spares t
  keeps : command.Keeps ws m kept
  room : (ws.perform command).workspace.Roomy m

inductive Course (m t : Nat) (kept : List Ref) : Workspace → Journal → Workspace → Journal → Prop where
  | stay (ws : Workspace) (journal : Journal) : Course m t kept ws journal ws journal
  | step (ws : Workspace) (journal : Journal) (command : Command) (later : Workspace) (after : Journal)
      (permitted : Permitted m t kept ws journal command)
      (rest : Course m t kept (ws.perform command).workspace (⟨command, ws.perform command⟩ :: journal) later after) :
      Course m t kept ws journal later after

def Workspace.Means (ws : Workspace) (m : Nat) (f : Ref) (fn : (Var → Bool) → Bool) : Prop :=
  ∃ store, ws.stores[m]? = some store ∧ store.Live f ∧ ∀ env, store.eval f env = fn env

structure Workspace.Rests (ws : Workspace) (m t id : Nat) (blocks : Array Block) : Prop where
  store : ∃ store, ws.stores[m]? = some store ∧ store.id = id
  table : ∃ table, ws.tables[t]? = some table ∧ table.owner = some id ∧
    ∀ (i : Nat) (block : Block), blocks[i]? = some block → table.blocks[i]? = some block

theorem change_at (book : Book) (ws : Workspace) (entry : Entry) (change : Change book ws entry) (m : Nat)
    (store : Store) (found : ws.stores[m]? = some store) :
    ∃ next, entry.reply.workspace.stores[m]? = some next ∧ (next = store ∨ Work book m store next entry.mark ∨
      (Follows store next ∧ next.Coherent book)) := by
  cases change with
  | idle _ stores _ _ => exact ⟨store, stores ▸ found, .inl rfl⟩
  | store fresh _ _ stores _ _ =>
      exact ⟨store, stores ▸ Workspace.push_found ws.stores fresh store m found, .inl rfl⟩
  | table _ stores _ _ => exact ⟨store, stores ▸ found, .inl rfl⟩
  | work k old next oldFound after did =>
      rw [after]
      by_cases same : k = m
      · subst same
        obtain rfl := Option.some.inj (found.symm.trans oldFound)
        exact ⟨next, Workspace.set_store_found ws k store next found, .inr (.inl did)⟩
      · exact ⟨store, (Array.getElem?_setIfInBounds_ne same).trans found, .inl rfl⟩
  | blocks k t old next table final oldFound _ _ after follows coherent _ =>
      rw [after]
      by_cases same : k = m
      · subst same
        obtain rfl := Option.some.inj (found.symm.trans oldFound)
        exact ⟨next, Workspace.set_store_found ws k store next found, .inr (.inr ⟨follows, coherent⟩)⟩
      · exact ⟨store, (Array.getElem?_setIfInBounds_ne same).trans found, .inl rfl⟩

theorem follows_means (book : Book) (store next : Store) (sound : store.Sound) (follows : Follows store next)
    (coherent : next.Coherent book) (f : Ref) (live : store.Live f) :
    next.Live f ∧ ∀ env, next.eval f env = store.eval f env :=
  ⟨extends_live store next follows.grown f live, eval_extends store next sound coherent.sound follows.grown f live⟩

theorem work_means (book : Book) (m : Nat) (store next : Store) (mark : Mark) (sound : store.Sound)
    (did : Work book m store next mark) (f : Ref) (live : store.Live f)
    (held : mark = .collected m → f ≤ 1 ∨ store.Held f) :
    next.Live f ∧ ∀ env, next.eval f env = store.eval f env := by
  cases did with
  | build follows coherent _ => exact follows_means book store next sound follows coherent f live
  | hold _ follows coherent _ => exact follows_means book store next sound follows coherent f live
  | release _ follows coherent _ => exact follows_means book store next sound follows coherent f live
  | collect freed _ _ collected => exact collected_held store next freed collected f (held rfl)

theorem change_means (book : Book) (ws : Workspace) (trusted : ws.Trusted book) (entry : Entry) (m : Nat)
    (kept : List Ref) (keeps : entry.command.Keeps ws m kept) (change : Change book ws entry) (f : Ref)
    (member : f ∈ kept) (fn : (Var → Bool) → Bool) (means : ws.Means m f fn) :
    entry.reply.workspace.Means m f fn := by
  obtain ⟨store, found, live, value⟩ := means
  have sound := (trusted m store found).sound
  obtain ⟨next, after, same | did | ⟨follows, coherent⟩⟩ := change_at book ws entry change m store found
  · exact ⟨next, after, same ▸ live, same ▸ value⟩
  · obtain ⟨nextLive, agree⟩ := work_means book m store next _ sound did f live fun mark => by
      rw [Entry.mark_collected entry m mark] at keeps
      exact keeps rfl store found f member
    exact ⟨next, after, nextLive, fun env => (agree env).trans (value env)⟩
  · obtain ⟨nextLive, agree⟩ := follows_means book store next sound follows coherent f live
    exact ⟨next, after, nextLive, fun env => (agree env).trans (value env)⟩

theorem change_identity (book : Book) (ws : Workspace) (entry : Entry) (change : Change book ws entry) (m : Nat)
    (store : Store) (found : ws.stores[m]? = some store) :
    ∃ next, entry.reply.workspace.stores[m]? = some next ∧ next.id = store.id := by
  obtain ⟨next, after, same | did | ⟨follows, _⟩⟩ := change_at book ws entry change m store found
  · exact ⟨next, after, congrArg Store.id same⟩
  · exact ⟨next, after, work_id book m store next _ did⟩
  · exact ⟨next, after, follows.id⟩

theorem block_work_kept (entry : Entry) (m t : Nat) (store next : Store) (table later : BlockTable) (mark : Mark)
    (owned : table.owner = some store.id) (covered : ∀ f, Block.uses table.blocks.toList f ≤ store.tally f)
    (stays : mark ≠ .cleared t) (did : BlockWork entry m t store next table later mark) :
    later.owner = some store.id ∧
      ∀ (i : Nat) (block : Block), table.blocks[i]? = some block → later.blocks[i]? = some block := by
  cases did with
  | extend sizes rows added _ _ grown =>
      refine ⟨?_, fun i block listed => ?_⟩
      · rcases grown.owner with mine | ⟨_, kept⟩
        · exact mine
        · exact kept.trans owned
      · rw [grown.blocks, Array.getElem?_append_left (Array.getElem?_eq_some_iff.mp listed).1]
        exact listed
  | overlap left right a b set _ _ _ blocks _ =>
      refine ⟨blocks ▸ owned, fun i block listed => ?_⟩
      rw [blocks]
      exact Workspace.push_found table.blocks _ block i listed
  | teardown _ _ => exact absurd rfl stays
  | short f _ lacking => exact absurd lacking (Nat.not_lt_of_le (covered f))

theorem spares_stays (entry : Entry) (t : Nat) (spares : entry.command.Spares t) : entry.mark ≠ .cleared t := by
  intro mark
  obtain ⟨_, asked⟩ := Entry.mark_cleared entry t mark
  rw [asked] at spares
  exact spares rfl

theorem change_table (book : Book) (ws : Workspace) (journal : Journal) (covered : ws.Covered journal)
    (entry : Entry) (change : Change book ws entry) (t id : Nat) (stays : entry.mark ≠ .cleared t)
    (table : BlockTable) (tabled : ws.tables[t]? = some table) (owned : table.owner = some id) :
    ∃ later, entry.reply.workspace.tables[t]? = some later ∧ later.owner = some id ∧
      ∀ (i : Nat) (block : Block), table.blocks[i]? = some block → later.blocks[i]? = some block := by
  cases change with
  | idle _ _ tables _ => exact ⟨table, tables ▸ tabled, owned, fun _ _ listed => listed⟩
  | store _ _ _ _ tables _ => exact ⟨table, tables ▸ tabled, owned, fun _ _ listed => listed⟩
  | table _ _ tables _ =>
      refine ⟨table, ?_, owned, fun _ _ listed => listed⟩
      rw [tables]
      exact Workspace.push_found ws.tables .empty table t tabled
  | work m store next _ after _ => exact ⟨table, after ▸ tabled, owned, fun _ _ listed => listed⟩
  | blocks m k store next old final found oldTabled belongs after _ _ did =>
      rw [after]
      by_cases same : k = t
      · subst same
        obtain rfl := Option.some.inj (tabled.symm.trans oldTabled)
        have mine : table.owner = some store.id := belongs.resolve_left fun none => nomatch none.symm.trans owned
        have enough := uses_covered store.id table store (.inr mine)
          (Workspace.covered_table ws journal covered m k store table found tabled)
        obtain ⟨owner, kept⟩ := block_work_kept _ _ k store next table final _ mine enough stays did
        refine ⟨final, ?_, owner.trans (mine.symm.trans owned), kept⟩
        exact Workspace.set_table_found (ws.setStore m next) k table final tabled
      · refine ⟨table, ?_, owned, fun _ _ listed => listed⟩
        exact (Array.getElem?_setIfInBounds_ne same).trans tabled

-- A state that a client has brought about, with store m and table t as they are relied on.
structure Ready (m t id : Nat) (blocks : Array Block) (ws : Workspace) (journal : Journal) : Prop where
  fair : Fair ws journal
  room : ws.Roomy m
  rests : ws.Rests m t id blocks

def Workspace.Carries (ws : Workspace) (m : Nat) (kept : List Ref) (later : Workspace) : Prop :=
  ∀ f ∈ kept, ∀ fn, ws.Means m f fn → later.Means m f fn

theorem permitted_ready (m t id : Nat) (kept : List Ref) (blocks : Array Block) (ws : Workspace) (journal : Journal)
    (ready : Ready m t id blocks ws journal) (command : Command) (permitted : Permitted m t kept ws journal command) :
    Ready m t id blocks (ws.perform command).workspace (⟨command, ws.perform command⟩ :: journal) ∧
      ws.Carries m kept (ws.perform command).workspace := by
  obtain ⟨book, trusted, change⟩ := fair_change ws journal ready.fair command
  have covered := (fair_accounted ws journal ready.fair).covered
  obtain ⟨store, found, same⟩ := ready.rests.store
  obtain ⟨table, tabled, owned, listed⟩ := ready.rests.table
  obtain ⟨next, after, identity⟩ := change_identity book ws _ change m store found
  have stays := spares_stays ⟨command, ws.perform command⟩ t permitted.spares
  obtain ⟨later, laterTabled, laterOwned, kept⟩ :=
    change_table book ws journal covered _ change t id stays table tabled owned
  refine ⟨⟨.step ws journal command ready.fair permitted.allowed, permitted.room, ?_⟩, fun f member fn means => ?_⟩
  · exact ⟨⟨next, after, identity.trans same⟩,
      ⟨later, laterTabled, laterOwned, fun i block inside => kept i block (listed i block inside)⟩⟩
  · exact change_means book ws trusted _ m _ permitted.keeps change f member fn means

theorem course_ready (m t id : Nat) (kept : List Ref) (blocks : Array Block) (ws later : Workspace)
    (journal after : Journal) (course : Course m t kept ws journal later after)
    (ready : Ready m t id blocks ws journal) :
    Ready m t id blocks later after ∧ ws.Carries m kept later := by
  induction course with
  | stay ws journal => exact ⟨ready, fun _ _ _ means => means⟩
  | step ws journal command later after permitted _ ih =>
      obtain ⟨first, carries⟩ := permitted_ready m t id kept blocks ws journal ready command permitted
      obtain ⟨last, further⟩ := ih first
      exact ⟨last, fun f member fn means => further f member fn (carries f member fn means)⟩

theorem collect_course (m t : Nat) (kept : List Ref) (ws : Workspace) (journal : Journal) (fair : Fair ws journal)
    (store : Store) (found : ws.stores[m]? = some store) (room : store.Roomy)
    (held : ∀ f ∈ kept, f ≤ 1 ∨ store.Held f) :
    Course m t kept ws journal (ws.perform (.collect m)).workspace
      (⟨.collect m, ws.perform (.collect m)⟩ :: journal) := by
  obtain ⟨book, _, trusted⟩ := Workspace.reachable_trusted ws (fair_reachable ws journal fair)
  obtain ⟨sweep, next, done, _, collected⟩ := Action.collect_collected store (trusted m store found).sound
  refine .step ws journal (.collect m) _ _ ⟨trivial, trivial, ?_, ?_⟩ (.stay _ _)
  · intro _ other here
    exact Option.some.inj (found.symm.trans here) ▸ held
  · rw [Workspace.collect_reply ws m store next sweep found done]
    intro other here
    obtain rfl := Option.some.inj ((Workspace.set_store_found ws m store next found).symm.trans here)
    refine Action.roomy_follows store next (fun f => ?_) room
    rw [tally, tally, collected.counts]

end DomainDiagram
