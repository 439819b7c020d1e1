import DomainDiagram.Proofs.Blocks
import DomainDiagram.Proofs.Collection

set_option autoImplicit false

namespace DomainDiagram

structure Entry where
  command : Command
  reply : Reply

-- What matters of a request to those who rely on what was there before: holds
-- got or given up, a collection, and blocks that have come to stand in a table
-- or gone from it.
inductive Mark where
  | none
  | held (m : Nat) (f : Ref)
  | released (m : Nat) (f : Ref)
  | collected (m : Nat)
  | extended (t first count : Nat)
  | cleared (t : Nat)

def Entry.mark (entry : Entry) : Mark :=
  match entry.command, entry.reply.outcome with
  | .hold m f, .ok _ => .held m f
  | .release m f, .ok _ => .released m f
  | .collect m, .ok _ => .collected m
  | .extend _ t sizes, .ok (.index first) => .extended t first sizes.length
  | .teardown _ t, .ok _ => .cleared t
  | _, _ => .none

theorem Entry.mark_error (command : Command) (reply : Reply) (failure : Failure)
    (failed : reply.outcome = .error failure) : mark ⟨command, reply⟩ = .none := by
  cases command <;> simp [mark, failed]

theorem Entry.mark_released (entry : Entry) (m : Nat) (f : Ref) (released : entry.mark = .released m f) :
    entry.command = .release m f := by
  unfold mark at released
  split at released
  case h_2 k g _ asked _ =>
      obtain ⟨rfl, rfl⟩ := Mark.released.inj released
      exact asked
  all_goals exact nomatch released

theorem Entry.mark_collected (entry : Entry) (m : Nat) (collected : entry.mark = .collected m) :
    entry.command = .collect m := by
  unfold mark at collected
  split at collected
  case h_3 k _ asked _ =>
      obtain rfl := Mark.collected.inj collected
      exact asked
  all_goals exact nomatch collected

theorem Entry.mark_cleared (entry : Entry) (t : Nat) (cleared : entry.mark = .cleared t) :
    ∃ m, entry.command = .teardown m t := by
  unfold mark at cleared
  split at cleared
  case h_5 m k _ asked _ =>
      obtain rfl := Mark.cleared.inj cleared
      exact ⟨m, asked⟩
  all_goals exact nomatch cleared

namespace Mark

def holds (m : Nat) (f : Ref) (n : Nat) : Mark → Nat
  | .held k g => if k = m ∧ g = f then n + 1 else n
  | .released k g => if k = m ∧ g = f then n - 1 else n
  | _ => n

-- Whether an extension has made block i of table t, given whether one had before.
def lays (t i : Nat) (before : Prop) : Mark → Prop
  | .extended k first count => (k = t ∧ first ≤ i ∧ i < first + count) ∨ before
  | .cleared k => k ≠ t ∧ before
  | _ => before

end Mark

-- Everything that a client has asked for, the latest first.
abbrev Journal := List Entry

namespace Journal

def holds (m : Nat) (f : Ref) : Journal → Nat
  | [] => 0
  | entry :: earlier => entry.mark.holds m f (holds m f earlier)

def Extended (t i : Nat) : Journal → Prop
  | [] => False
  | entry :: earlier => entry.mark.lays t i (Extended t i earlier)

theorem holds_quiet (journal : Journal) (entry : Entry) (quiet : entry.mark = .none) (m : Nat) (f : Ref) :
    holds m f (entry :: journal) = journal.holds m f := by
  rw [holds, quiet]
  rfl

theorem extended_quiet (journal : Journal) (entry : Entry) (quiet : entry.mark = .none) (t i : Nat) :
    Extended t i (entry :: journal) ↔ journal.Extended t i := by
  rw [Extended, quiet]
  rfl

theorem extended_made (journal : Journal) (m t first : Nat) (sizes : List Nat) (reply : Reply)
    (outcome : reply.outcome = .ok (.index first)) (i : Nat) (above : first ≤ i) (below : i < first + sizes.length) :
    Extended t i (⟨.extend m t sizes, reply⟩ :: journal) := by
  rw [Extended, Entry.mark, outcome]
  exact .inl ⟨rfl, above, below⟩

-- A client gives up its own holds only.
def Allows (journal : Journal) : Command → Prop
  | .release m f => f ≤ 1 ∨ 0 < journal.holds m f
  | _ => True

end Journal

inductive Fair : Workspace → Journal → Prop where
  | start : Fair .empty []
  | step (ws : Workspace) (journal : Journal) (command : Command) (fair : Fair ws journal)
      (allowed : journal.Allows command) :
      Fair (ws.perform command).workspace (⟨command, ws.perform command⟩ :: journal)

theorem fair_reachable (ws : Workspace) (journal : Journal) (fair : Fair ws journal) : ws.Reachable := by
  induction fair with
  | start => exact ⟨[], rfl⟩
  | step ws journal command _ _ ih => exact Workspace.reachable_run ws ih [command]

def Workspace.record (ws : Workspace) (journal : Journal) : List Command → Journal
  | [] => journal
  | command :: rest =>
      (ws.perform command).workspace.record (⟨command, ws.perform command⟩ :: journal) rest

theorem fair_record (ws : Workspace) (journal : Journal) (fair : Fair ws journal) (commands : List Command)
    (free : ∀ command ∈ commands, ∀ journal : Journal, journal.Allows command) :
    Fair (ws.run commands) (ws.record journal commands) := by
  induction commands generalizing ws journal with
  | nil => exact fair
  | cons command rest ih =>
      obtain ⟨first, others⟩ := List.forall_mem_cons.mp free
      exact ih _ _ (.step ws journal command fair (first journal)) others

theorem fair_run (ws : Workspace) (journal : Journal) (fair : Fair ws journal) (commands : List Command)
    (free : ∀ command ∈ commands, ∀ journal : Journal, journal.Allows command) :
    ∃ later, Fair (ws.run commands) later := ⟨_, fair_record ws journal fair commands free⟩

open Store

inductive Work (book : Book) (m : Nat) (store next : Store) : Mark → Prop where
  | build (follows : Follows store next) (coherent : next.Coherent book)
      (tally : ∀ f, store.tally f ≤ next.tally f) : Work book m store next .none
  | hold (f : Ref) (follows : Follows store next) (coherent : next.Coherent book)
      (tally : ∀ g, next.tally g = store.tally g + f.once g) : Work book m store next (.held m f)
  | release (f : Ref) (follows : Follows store next) (coherent : next.Coherent book)
      (tally : ∀ g, next.tally g + f.once g = store.tally g) : Work book m store next (.released m f)
  | collect (freed : Nat) (id : next.id = store.id) (coherent : next.Coherent book)
      (collected : store.Collected next freed) : Work book m store next (.collected m)

inductive BlockWork (entry : Entry) (m t : Nat) (store next : Store) (table later : BlockTable) : Mark → Prop where
  | extend (sizes : List Nat) (rows : List (Nat × List Var)) (added : List Block)
      (planned : BlockTable.Planned store sizes rows)
      (same : added.map (fun block => (block.size, block.vars)) = rows)
      (grown : table.Grown later store next added) (asked : entry.command = .extend m t sizes)
      (answer : entry.reply.outcome = .ok (.index table.size)) :
      BlockWork entry m t store next table later (.extended t table.size sizes.length)
  | overlap (left right : Nat) (a b : Block) (set : Ref) (first : table.blocks[left]? = some a)
      (second : table.blocks[right]? = some b) (joined : next.Combines .and a.varset b.varset set)
      (blocks : later = { table with
        blocks := table.blocks.push ⟨table.size, a.size * b.size, a.vars ++ b.vars, set⟩ })
      (tally : ∀ f, next.tally f = store.tally f + set.once f) (asked : entry.command = .overlap m t left right)
      (answer : entry.reply.outcome = .ok (.index table.size)) : BlockWork entry m t store next table later .none
  | teardown (blocks : later = .empty)
      (tally : ∀ f, next.tally f + Block.uses table.blocks.toList f = store.tally f)
      (asked : entry.command = .teardown m t) : BlockWork entry m t store next table later (.cleared t)
  | short (f : Ref) (blocks : later = ⟨#[], table.owner⟩)
      (lacking : store.tally f < Block.uses table.blocks.toList f) (asked : entry.command = .teardown m t) :
      BlockWork entry m t store next table later .none

inductive Change (book : Book) (ws : Workspace) (entry : Entry) : Prop where
  | idle (quiet : entry.mark = .none) (stores : entry.reply.workspace.stores = ws.stores)
      (tables : entry.reply.workspace.tables = ws.tables)
      (ids : ws.nextStore ≤ entry.reply.workspace.nextStore)
  | store (store : Store) (quiet : entry.mark = .none) (id : store.id = ws.nextStore)
      (stores : entry.reply.workspace.stores = ws.stores.push store)
      (tables : entry.reply.workspace.tables = ws.tables)
      (ids : ws.nextStore < entry.reply.workspace.nextStore) (unheld : ∀ f, store.tally f = 0)
  | table (quiet : entry.mark = .none) (stores : entry.reply.workspace.stores = ws.stores)
      (tables : entry.reply.workspace.tables = ws.tables.push .empty)
      (ids : entry.reply.workspace.nextStore = ws.nextStore)
  | work (m : Nat) (store next : Store) (found : ws.stores[m]? = some store)
      (after : entry.reply.workspace = ws.setStore m next) (did : Work book m store next entry.mark)
      (settled : ∀ answer, entry.reply.outcome = .ok answer → entry.mark = .none → ∀ f, next.tally f = store.tally f)
  | blocks (m t : Nat) (store next : Store) (table later : BlockTable) (found : ws.stores[m]? = some store)
      (tabled : ws.tables[t]? = some table) (owned : table.owner = none ∨ table.owner = some store.id)
      (after : entry.reply.workspace = (ws.setStore m next).setTable t later)
      (follows : Follows store next) (coherent : next.Coherent book)
      (did : BlockWork entry m t store next table later entry.mark)

namespace Workspace

theorem change_refused (book : Book) (ws : Workspace) (command : Command) (failure : Failure) :
    Change book ws ⟨command, ws.refuse failure⟩ :=
  .idle (Entry.mark_error command _ failure rfl) rfl rfl (Nat.le_refl _)

theorem change_found {α : Type} (book : Book) (ws : Workspace) (command : Command) (named : Except Failure α)
    (next : α → Reply) (change : ∀ a, named = .ok a → Change book ws ⟨command, next a⟩) :
    Change book ws ⟨command, ws.found named next⟩ := by
  unfold found
  cases outcome : named with
  | ok a => exact change a outcome
  | error failure => exact change_refused book ws command failure

theorem change_on_store {α : Type} (book : Book) (ws : Workspace) (trusted : ws.Trusted book)
    (command : Command) (m : Nat) (request : Request α) (answer : α → Store → Workspace → Reply)
    (good : Store → α → Store → Prop)
    (ends : ∀ store, store.Coherent book → Action.Ends request store (good store)
      (fun _ next => (Follows store next ∧ next.Coherent book) ∧ ∀ f, store.tally f ≤ next.tally f))
    (done : ∀ store next a, ws.stores[m]? = some store → good store a next →
      Change book ws ⟨command, answer a next (ws.setStore m next)⟩) :
    Change book ws ⟨command, ws.onStore m request answer⟩ := by
  rw [on_store_run]
  cases found : ws.stores[m]? with
  | none => exact change_refused book ws command .absent
  | some store =>
      have known := ends store (trusted m store found)
      unfold Action.Ends at known
      cases outcome : request store with
      | ok a next =>
          rw [outcome] at known
          simp only [outcome]
          exact done store next a found known
      | error failure next =>
          rw [outcome] at known
          simp only [outcome]
          have quiet := Entry.mark_error command ((ws.setStore m next).refuse failure) failure rfl
          refine .work m store next found rfl ?_ fun _ answered => nomatch answered
          rw [quiet]
          exact .build known.1.1 known.1.2 known.2

theorem change_build {α : Type} (book : Book) (ws : Workspace) (trusted : ws.Trusted book)
    (command : Command) (m : Nat) (request : Request α) (answer : α → Store → Workspace → Reply)
    (charges : Action.Charges book request (fun _ _ => 0) fun _ => 0)
    (quiet : ∀ reply, Entry.mark ⟨command, reply⟩ = .none)
    (still : ∀ a store later, (answer a store later).workspace = later) :
    Change book ws ⟨command, ws.onStore m request answer⟩ := by
  refine change_on_store book ws trusted command m request answer _ charges ?_
  rintro store next a found ⟨⟨follows, coherent⟩, tally⟩
  refine .work m store next found (still a next _) ?_ fun _ _ _ => tally
  rw [quiet]
  exact .build follows coherent fun f => Nat.le_of_eq (tally f).symm

theorem change_construct (book : Book) (ws : Workspace) (trusted : ws.Trusted book) (command : Command)
    (m : Nat) (act : Action Ref) (built : Action.Built book act)
    (quiet : ∀ reply, Entry.mark ⟨command, reply⟩ = .none) : Change book ws ⟨command, ws.construct m act⟩ :=
  change_build book ws trusted command m _ _ (Action.charges_perform book act _ _ (Action.charges_built book act built))
    quiet fun _ _ _ => rfl

theorem charges_new_vars (book : Book) (n : Nat) :
    Action.Charges book (Request.newVars n) (fun _ _ => 0) fun _ => 0 :=
  Action.charges_after_check book _ _ _ _ fun _ store coherent =>
    ⟨⟨grow_follows store n, grow_coherent book store coherent n⟩, fun _ => rfl⟩

theorem create_fresh (id : Nat) (config : Config) (store : Store) (made : Store.create id config = .ok store) :
    store.id = id ∧ ∀ f, store.tally f = 0 := by
  rw [create_run] at made
  split at made
  · obtain rfl := Except.ok.inj made
    refine ⟨rfl, fun f => ?_⟩
    rcases Ref.terminal_or f with small | large
    · rcases Ref.terminal_cases f small with rfl | rfl <;> rfl
    · have none : (#[0, 0] : Array Nat)[f]? = none := Array.getElem?_eq_none_iff.mpr large
      simp [tally, none]
  · cases made

theorem change_new_store (book : Book) (ws : Workspace) (config : Config) :
    Change book ws ⟨.newStore config, ws.newStore config⟩ := by
  rw [new_store_run]
  split
  · cases made : Store.create ws.nextStore config with
    | error fault => exact .idle rfl rfl rfl (Nat.le_succ _)
    | ok store =>
        obtain ⟨id, unheld⟩ := create_fresh ws.nextStore config store made
        exact .store store rfl id rfl rfl (Nat.lt_succ_self _) unheld
  · exact change_refused book ws _ _

theorem change_hold (book : Book) (ws : Workspace) (trusted : ws.Trusted book) (m : Nat) (f : Ref) :
    Change book ws ⟨.hold m f, ws.construct m (.hold f)⟩ := by
  refine change_on_store book ws trusted _ m _ _ _
    (Action.charges_perform book (Action.hold f) _ _ (Action.charges_hold book f)) ?_
  rintro store next r found ⟨⟨follows, coherent⟩, tally⟩
  exact .work m store next found rfl (.hold f follows coherent tally) nofun

theorem change_release (book : Book) (ws : Workspace) (trusted : ws.Trusted book) (m : Nat) (f : Ref) :
    Change book ws ⟨.release m f, ws.release m f⟩ := by
  refine change_on_store book ws trusted _ m _ _ (fun store _ next => (Follows store next ∧ next.Coherent book) ∧
    ∀ g, next.tally g + f.once g = store.tally g) (fun store coherent => ?_) ?_
  · have both := Action.ends_and _ store _ _ _ _ ((Action.regular_release book f).ends store coherent)
      (Action.release_tally store f)
    refine Action.ends_perform _ store _ _ (Action.ends_mono _ store _ _ _ _ both (fun _ _ known => known) ?_)
    rintro _ next ⟨kept, rfl, _⟩
    exact ⟨kept, fun _ => Nat.le_refl _⟩
  · rintro store next _ found ⟨⟨follows, coherent⟩, tally⟩
    exact .work m store next found rfl (.release f follows coherent tally) nofun

theorem change_collect (book : Book) (ws : Workspace) (trusted : ws.Trusted book) (m : Nat) :
    Change book ws ⟨.collect m, ws.collect m⟩ := by
  refine change_on_store book ws trusted _ m _ _ (fun store sweep next =>
    (store.Steady next ∧ next.Coherent book) ∧ store.Collected next sweep.freed) (fun store coherent => ?_) ?_
  · obtain ⟨sweep, next, done, _, collected⟩ := Action.collect_collected store coherent.sound
    have known := Action.collect_ends book store coherent
    unfold Action.Ends Request.perform
    unfold Action.Ends at known
    rw [done] at known ⊢
    exact ⟨known, collected⟩
  · rintro store next sweep found ⟨⟨steady, coherent⟩, collected⟩
    exact .work m store next found rfl (.collect sweep.freed steady.id coherent collected) nofun

theorem table_found (ws : Workspace) (t : Nat) (table : BlockTable) (named : ws.table t = .ok table) :
    ws.tables[t]? = some table := by
  unfold Workspace.table at named
  split at named
  · next other here => rw [here, Except.ok.inj named]
  · exact nomatch named

theorem change_extend (book : Book) (ws : Workspace) (trusted : ws.Trusted book) (m t : Nat) (sizes : List Nat) :
    Change book ws ⟨.extend m t sizes, ws.extend m t sizes⟩ := by
  refine change_found book ws _ _ _ fun table named => ?_
  refine change_on_store book ws trusted _ m _ _ _ (fun store coherent => Action.ends_mono _ store _ _ _ _
    (BlockTable.extend_ends book table sizes store coherent) (fun _ _ known => known) fun _ _ known => known.1) ?_
  rintro store next later found ⟨⟨follows, coherent⟩, owned, rows, added, planned, same, grown⟩
  exact .blocks m t store next table later found (table_found ws t table named) owned rfl follows coherent
    (.extend sizes rows added planned same grown rfl rfl)

theorem change_overlap (book : Book) (ws : Workspace) (trusted : ws.Trusted book) (m t left right : Nat) :
    Change book ws ⟨.overlap m t left right, ws.overlap m t left right⟩ := by
  refine change_found book ws _ _ _ fun table named => ?_
  refine change_on_store book ws trusted _ m _ _ _ (fun store coherent => Action.ends_mono _ store _ _ _ _
    (BlockTable.overlap_ends book table left right store coherent) (fun _ _ known => known)
    fun _ _ known => ⟨known.1, fun f => Nat.le_of_eq (known.2 f).symm⟩) ?_
  rintro store next later found ⟨⟨follows, coherent⟩, owned, a, b, set, first, second, joined, blocks, tally⟩
  exact .blocks m t store next table later found (table_found ws t table named) owned rfl follows coherent
    (.overlap left right a b set first second joined blocks tally rfl rfl)

theorem set_same {α : Type} (items : Array α) (i : Nat) (a : α) (found : items[i]? = some a) :
    items.setIfInBounds i a = items := by
  refine Array.ext_getElem? fun k => ?_
  rw [Array.getElem?_setIfInBounds]
  split
  · next same =>
      subst same
      rw [if_pos (Array.getElem?_eq_some_iff.mp found).1, found]
  · rfl

theorem change_teardown (book : Book) (ws : Workspace) (trusted : ws.Trusted book) (m t : Nat) :
    Change book ws ⟨.teardown m t, ws.teardown m t⟩ := by
  rw [teardown_run]
  refine change_found book ws _ _ _ fun table named => ?_
  have tabled := table_found ws t table named
  cases found : ws.stores[m]? with
  | none => exact change_refused book ws _ .absent
  | some store =>
      cases owned : table.checkOwner store with
      | error refusal =>
          have torn : table.teardown store = (.error (.refused refusal), table, store) := by
            simp only [BlockTable.teardown, owned]
          simp only [torn]
          exact .idle rfl (set_same ws.stores m store found) (set_same ws.tables t table tabled) (Nat.le_refl _)
      | ok _ =>
          have known := BlockTable.release_all_ends book table.blocks.toList store (trusted m store found)
          unfold Action.Ends at known
          have mine := (BlockTable.check_owner_ok table store).mp owned
          cases outcome : BlockTable.releaseAll table.blocks.toList store with
          | ok u next =>
              rw [outcome] at known
              have torn : table.teardown store = (.ok (), .empty, next) := by
                simp only [BlockTable.teardown, owned, outcome]
              simp only [torn]
              exact .blocks m t store next table .empty found tabled mine rfl known.1.1 known.1.2
                (.teardown rfl known.2 rfl)
          | error fault next =>
              rw [outcome] at known
              have torn : table.teardown store = (.error (.broken fault), ⟨#[], table.owner⟩, next) := by
                simp only [BlockTable.teardown, owned, outcome]
              simp only [torn]
              obtain ⟨kept, f, short⟩ := known
              exact .blocks m t store next table _ found tabled mine rfl kept.1 kept.2 (.short f rfl short rfl)

theorem change_pair_as (book : Book) (ws : Workspace) (command : Command) (m t p : Nat)
    (plan : BlockTable → Store → List BlockPair × Except Refusal Unit)
    (quiet : ∀ reply, Entry.mark ⟨command, reply⟩ = .none) : Change book ws ⟨command, ws.pairAs m t p plan⟩ := by
  rw [pair_as_run]
  refine change_found book ws _ _ _ fun store _ => ?_
  refine change_found book ws _ _ _ fun table _ => ?_
  refine change_found book ws _ _ _ fun names _ => ?_
  exact .idle (quiet _) rfl rfl (Nat.le_refl _)

theorem perform_changes (book : Book) (ws : Workspace) (booked : ws.Booked book) (trusted : ws.Trusted book)
    (command : Command) : Change book ws ⟨command, ws.perform command⟩ := by
  cases command with
  | newStore config => exact change_new_store book ws config
  | newVars m n =>
      exact change_build book ws trusted _ m _ _ (charges_new_vars book n) (fun _ => rfl) fun _ _ _ => rfl
  | construct m construction =>
      exact change_construct book ws trusted _ m _ (Action.built_construction book construction) fun _ => rfl
  | rename m p f =>
      refine change_found book ws _ _ _ fun names named => ?_
      have current := booked.current p names ((names_found ws p names).mp named)
      exact change_construct book ws trusted _ m _ (Action.built_rename book names current f) fun _ => rfl
  | hold m f => exact change_hold book ws trusted m f
  | release m f => exact change_release book ws trusted m f
  | collect m => exact change_collect book ws trusted m
  | extend m t sizes => exact change_extend book ws trusted m t sizes
  | overlap m t left right => exact change_overlap book ws trusted m t left right
  | teardown m t => exact change_teardown book ws trusted m t
  | encode m t encoding =>
      refine change_found book ws _ _ _ fun table _ => ?_
      exact change_build book ws trusted _ m _ _ (Action.charges_encoding book table encoding) (fun _ => rfl)
        fun _ _ _ => rfl
  | newTable => exact .table rfl rfl rfl rfl
  | newRenaming => exact .idle rfl rfl rfl (Nat.le_refl _)
  | copyRenaming p =>
      refine change_found book ws _ _ _ fun names _ => ?_
      exact .idle rfl rfl rfl (Nat.le_refl _)
  | clearRenaming p =>
      refine change_found book ws _ _ _ fun names _ => ?_
      exact .idle rfl rfl rfl (Nat.le_refl _)
  | pair m p v w =>
      refine change_found book ws _ _ _ fun store _ => ?_
      refine change_found book ws _ _ _ fun names _ => ?_
      split
      · exact .idle rfl rfl rfl (Nat.le_refl _)
      · exact change_refused book ws _ _
  | pairBlocks m t p source target => exact change_pair_as book ws _ m t p _ fun _ => rfl
  | pairAll m t p pairs => exact change_pair_as book ws _ m t p _ fun _ => rfl

theorem reachable_change (ws : Workspace) (reachable : ws.Reachable) (command : Command) :
    ∃ book, ws.Trusted book ∧ Change book ws ⟨command, ws.perform command⟩ := by
  obtain ⟨book, booked, trusted⟩ := reachable_trusted ws reachable
  exact ⟨book, trusted, perform_changes book ws booked trusted command⟩

end Workspace
end DomainDiagram
