import DomainDiagram.Proofs.Foreign
import Mathlib.Data.List.Induction

set_option autoImplicit false

namespace DomainDiagram

namespace Entry

def Extends (t m : Nat) (entry : Entry) : Prop :=
  ∃ (sizes : List Nat) (first : Nat), entry.command = .extend m t sizes ∧ sizes ≠ [] ∧
    entry.reply.outcome = .ok (.index first)

def Builds (t k m : Nat) (entry : Entry) : Prop :=
  (∃ (sizes : List Nat) (first : Nat), entry.command = .extend m t sizes ∧ entry.reply.outcome = .ok (.index first) ∧
    first ≤ k ∧ k < first + sizes.length) ∨
  ∃ left right, entry.command = .overlap m t left right ∧ entry.reply.outcome = .ok (.index k)

theorem extends_builds (t m : Nat) (entry : Entry) (extended : entry.Extends t m) : ∃ k, entry.Builds t k m := by
  obtain ⟨sizes, first, asked, some, answer⟩ := extended
  have many := List.length_pos_of_ne_nil some
  exact ⟨first, .inl ⟨sizes, first, asked, answer, Nat.le_refl first, by omega⟩⟩

end Entry

namespace Journal

def Since (t : Nat) (such : Entry → Prop) : Journal → Prop
  | [] => False
  | entry :: earlier => such entry ∨ (entry.mark ≠ .cleared t ∧ Since t such earlier)

theorem since_mono (journal : Journal) (t : Nat) (such also : Entry → Prop)
    (each : ∀ entry, such entry → also entry) (since : journal.Since t such) : journal.Since t also := by
  induction journal with
  | nil => exact since
  | cons entry earlier ih => exact since.imp (each entry) fun ⟨stays, before⟩ => ⟨stays, ih before⟩

end Journal

namespace Workspace

theorem extend_nothing (ws : Workspace) (m t : Nat) : (ws.perform (.extend m t [])).workspace.tables = ws.tables := by
  rw [perform, extend]
  cases named : ws.table t with
  | error failure => rfl
  | ok table =>
      rw [found, on_store_run]
      cases ws.stores[m]? with
      | none => rfl
      | some store =>
          cases owned : table.checkOwner store with
          | error refusal =>
              have turned : table.extend [] store = .error (.refused refusal) store := by
                simp only [BlockTable.extend, Request.afterCheck, BlockTable.planExtend, owned, bind, Except.bind]
              simp only [turned]
              rfl
          | ok _ =>
              have same : table.extend [] store = .ok table store := by
                simp only [BlockTable.extend, Request.afterCheck, BlockTable.planExtend, owned, bind, Except.bind]
                rfl
              simp only [same]
              exact set_same ws.tables t table (table_found ws t table named)

theorem added_some (sizes : List Nat) (store : Store) (added : List Block)
    (planned : BlockTable.Planned store sizes (added.map fun block => (block.size, block.vars))) (some : sizes ≠ []) :
    added ≠ [] := by
  rintro rfl
  exact some planned.sizes.symm

theorem grown_owner (table later : BlockTable) (store next : Store) (added : List Block)
    (grown : table.Grown later store next added) (some : added ≠ []) : later.owner = .some store.id :=
  grown.owner.resolve_right fun vacant => some vacant.1

theorem builds_owner (book : Book) (ws : Workspace) (trusted : ws.Trusted book) (bound : ws.Bound) (command : Command)
    (t k m : Nat) (builds : Entry.Builds t k m ⟨command, ws.perform command⟩) :
    ∃ (next : Store) (later : BlockTable), (ws.perform command).workspace.stores[m]? = some next ∧
      (ws.perform command).workspace.tables[t]? = some later ∧ later.owner = some next.id := by
  rcases builds with ⟨sizes, first, asked, answer, above, below⟩ | ⟨left, right, asked, answer⟩
  · obtain rfl : command = .extend m t sizes := asked
    obtain ⟨table, named, reached⟩ := found_done ws (ws.table t) _ _ answer
    have tabled := table_found ws t table named
    simp only [perform, extend] at answer ⊢
    rw [reached] at answer ⊢
    obtain ⟨store, next, later, found, ran, answered⟩ := on_store_done ws m _ _ _ answer
    obtain ⟨⟨follows, _⟩, _, rows, added, planned, rfl, grown⟩ := Action.ends_ok _ store next later _ _
      (BlockTable.extend_ends book table sizes store (trusted m store found)) ran
    have some : sizes ≠ [] := by
      rintro rfl
      exact absurd below (Nat.not_lt_of_le above)
    have mine := grown_owner table later store next added grown (added_some sizes store added planned some)
    rw [answered]
    exact ⟨next, later, set_store_found ws m store next found,
      set_table_found (ws.setStore m next) t table later tabled, follows.id ▸ mine⟩
  · obtain rfl : command = .overlap m t left right := asked
    obtain ⟨table, named, reached⟩ := found_done ws (ws.table t) _ _ answer
    have tabled := table_found ws t table named
    simp only [perform, overlap] at answer ⊢
    rw [reached] at answer ⊢
    obtain ⟨store, next, later, found, ran, answered⟩ := on_store_done ws m _ _ _ answer
    obtain ⟨⟨follows, _⟩, owned, a, b, set, first, _, _, rfl, _⟩ := Action.ends_ok _ store next later _ _
      (BlockTable.overlap_ends book table left right store (trusted m store found)) ran
    rw [answered]
    refine ⟨next, _, set_store_found ws m store next found,
      set_table_found (ws.setStore m next) t table _ tabled, ?_⟩
    rcases bound_owned ws bound t store.id table tabled owned with ⟨_, empty⟩ | mine
    · exact absurd first (table.unlisted empty left a)
    · exact follows.id ▸ mine

end Workspace

theorem block_work_owned (entry : Entry) (m t : Nat) (store next : Store) (table later : BlockTable) (mark : Mark)
    (mine : table.owner = some store.id) (stays : mark ≠ .cleared t)
    (did : BlockWork entry m t store next table later mark) : later.owner = some store.id := by
  cases did with
  | extend sizes rows added _ _ grown _ _ =>
      rcases grown.owner with given | ⟨_, same⟩
      · exact given
      · exact same.trans mine
  | overlap left right a b set _ _ _ blocks _ _ _ => exact blocks ▸ mine
  | teardown _ _ _ => exact absurd rfl stays
  | short f blocks _ _ => exact blocks ▸ mine

theorem change_owned (book : Book) (ws : Workspace) (entry : Entry) (change : Change book ws entry) (t id : Nat)
    (stays : entry.mark ≠ .cleared t) (table : BlockTable) (tabled : ws.tables[t]? = some table)
    (owned : table.owner = some id) :
    ∃ later, entry.reply.workspace.tables[t]? = some later ∧ later.owner = some id := by
  cases change with
  | idle _ _ tables _ => exact ⟨table, tables ▸ tabled, owned⟩
  | store _ _ _ _ tables _ => exact ⟨table, tables ▸ tabled, owned⟩
  | table _ _ tables _ => exact ⟨table, tables ▸ Workspace.push_found ws.tables .empty table t tabled, owned⟩
  | work m store next _ after _ => exact ⟨table, after ▸ tabled, owned⟩
  | blocks m k store next old final found oldTabled belongs after _ _ did =>
      rw [after]
      by_cases same : k = t
      · subst same
        obtain rfl := Option.some.inj (tabled.symm.trans oldTabled)
        have mine : table.owner = some store.id := belongs.resolve_left fun none => nomatch none.symm.trans owned
        refine ⟨final, Workspace.set_table_found (ws.setStore m next) k table final tabled, ?_⟩
        exact (block_work_owned entry m k store next table final _ mine stays did).trans (mine.symm.trans owned)
      · exact ⟨table, (Array.getElem?_setIfInBounds_ne same).trans tabled, owned⟩

structure Owned (ws : Workspace) (journal : Journal) : Prop where
  given : ∀ (t : Nat) (table : BlockTable) (id : Nat), ws.tables[t]? = some table → table.owner = some id →
    ∃ (m : Nat) (store : Store), ws.stores[m]? = some store ∧ store.id = id ∧ journal.Since t (Entry.Extends t m)
  kept : ∀ t m, (journal.Since t fun entry => ∃ k, entry.Builds t k m) → ∃ (store : Store) (table : BlockTable),
    ws.stores[m]? = some store ∧ ws.tables[t]? = some table ∧ table.owner = some store.id
  built : ∀ (t k : Nat) (table : BlockTable) (block : Block), ws.tables[t]? = some table →
    table.blocks[k]? = some block → ∃ m, journal.Since t (Entry.Builds t k m)

section

variable (book : Book) (ws : Workspace) (journal : Journal) (owned : Owned ws journal) (command : Command)
  (change : Change book ws ⟨command, ws.perform command⟩)

include owned change

theorem owned_given (t : Nat) (later : BlockTable) (id : Nat)
    (tabled : (ws.perform command).workspace.tables[t]? = some later) (owner : later.owner = some id) :
    ∃ (m : Nat) (store : Store), (ws.perform command).workspace.stores[m]? = some store ∧ store.id = id ∧
      Journal.Since t (Entry.Extends t m) (⟨command, ws.perform command⟩ :: journal) := by
  have before : ∀ table : BlockTable, ws.tables[t]? = some table → table.owner = some id →
      Entry.mark ⟨command, ws.perform command⟩ ≠ .cleared t → ∃ (m : Nat) (store : Store),
        (ws.perform command).workspace.stores[m]? = some store ∧ store.id = id ∧
          Journal.Since t (Entry.Extends t m) (⟨command, ws.perform command⟩ :: journal) := by
    intro table old mine stays
    obtain ⟨m, store, found, same, since⟩ := owned.given t table id old mine
    obtain ⟨next, after, kept, _⟩ := change_grows book ws _ change m store found
    exact ⟨m, next, after, kept.trans same, .inr ⟨stays, since⟩⟩
  rcases change_tables book ws _ change t later tabled with
    ⟨old, stays⟩ | ⟨_, rfl⟩ | ⟨m, store, next, table, found, after, old, _, did⟩
  · exact before later old owner stays
  · exact nomatch owner
  · generalize marked : Entry.mark ⟨command, ws.perform command⟩ = mark at did
    cases did with
    | extend sizes rows added planned same grown asked answer =>
        subst same
        by_cases none : sizes = []
        · obtain rfl : command = .extend m t [] := none ▸ asked
          rw [ws.extend_nothing m t] at tabled
          obtain rfl := Option.some.inj (old.symm.trans tabled)
          exact before table old owner (marked ▸ nofun)
        · have mine := Workspace.grown_owner table later store next added grown
            (Workspace.added_some sizes store added planned none)
          obtain ⟨same, sameFound, kept, _⟩ := change_grows book ws _ change m store found
          exact ⟨m, same, sameFound, kept.trans (Option.some.inj (mine.symm.trans owner)),
            .inl ⟨sizes, table.size, asked, none, answer⟩⟩
    | overlap left right a b set _ _ _ blocks _ _ _ =>
        subst blocks
        exact before table old owner (marked ▸ nofun)
    | teardown blocks _ _ =>
        rw [blocks] at owner
        exact nomatch owner
    | short f blocks _ _ =>
        subst blocks
        exact before table old owner (marked ▸ nofun)

theorem owned_kept (trusted : ws.Trusted book) (bound : ws.Bound) (t m : Nat)
    (since : Journal.Since t (fun entry => ∃ k, entry.Builds t k m) (⟨command, ws.perform command⟩ :: journal)) :
    ∃ (store : Store) (table : BlockTable), (ws.perform command).workspace.stores[m]? = some store ∧
      (ws.perform command).workspace.tables[t]? = some table ∧ table.owner = some store.id := by
  rcases since with ⟨k, builds⟩ | ⟨stays, earlier⟩
  · exact Workspace.builds_owner book ws trusted bound command t k m builds
  · obtain ⟨store, table, found, tabled, mine⟩ := owned.kept t m earlier
    obtain ⟨next, after, same, _⟩ := change_grows book ws _ change m store found
    obtain ⟨later, laterTabled, still⟩ := change_owned book ws _ change t store.id stays table tabled mine
    exact ⟨next, later, after, laterTabled, same ▸ still⟩

theorem owned_built (t k : Nat) (later : BlockTable) (block : Block)
    (tabled : (ws.perform command).workspace.tables[t]? = some later) (listed : later.blocks[k]? = some block) :
    ∃ m, Journal.Since t (Entry.Builds t k m) (⟨command, ws.perform command⟩ :: journal) := by
  have before : ∀ table : BlockTable, ws.tables[t]? = some table → table.blocks[k]? = some block →
      Entry.mark ⟨command, ws.perform command⟩ ≠ .cleared t →
        ∃ m, Journal.Since t (Entry.Builds t k m) (⟨command, ws.perform command⟩ :: journal) := by
    intro table old there stays
    obtain ⟨m, since⟩ := owned.built t k table block old there
    exact ⟨m, .inr ⟨stays, since⟩⟩
  rcases change_tables book ws _ change t later tabled with
    ⟨old, stays⟩ | ⟨_, rfl⟩ | ⟨m, store, next, table, _, _, old, _, did⟩
  · exact before later old listed stays
  · exact nomatch listed
  · generalize marked : Entry.mark ⟨command, ws.perform command⟩ = mark at did
    cases did with
    | extend sizes rows added planned same grown asked answer =>
        rcases grown_cases table later store next added grown k block listed with ⟨_, there⟩ | ⟨above, new, _, _⟩
        · exact before table old there (marked ▸ nofun)
        · have count : added.length = sizes.length := by
            subst same
            have lengths := congrArg List.length planned.sizes
            rwa [List.length_map, List.length_map] at lengths
          have inside := (List.getElem?_eq_some_iff.mp new).1
          exact ⟨m, .inl (.inl ⟨sizes, table.size, asked, answer, above, by omega⟩)⟩
    | overlap left right a b set _ _ _ blocks _ asked answer =>
        rw [blocks] at listed
        rcases Workspace.push_cases table.blocks _ block k listed with ⟨rfl, _⟩ | there
        · exact ⟨m, .inl (.inr ⟨left, right, asked, answer⟩)⟩
        · exact before table old there (marked ▸ nofun)
    | teardown blocks _ _ => exact absurd listed (later.unlisted (congrArg BlockTable.blocks blocks) k block)
    | short f blocks _ _ => exact absurd listed (later.unlisted (congrArg BlockTable.blocks blocks) k block)

end

namespace Workspace

theorem record_append (ws : Workspace) (journal : Journal) (before : List Command) (last : Command) :
    ws.record journal (before ++ [last]) =
      ⟨last, (ws.run before).perform last⟩ :: ws.record journal before := by
  induction before generalizing ws journal with
  | nil => rfl
  | cons command rest ih => exact ih _ _

theorem record_owned (commands : List Command) : Owned (empty.run commands) (empty.record [] commands) := by
  -- From the last command back, as reachability is about what comes before it.
  induction commands using List.reverseRecOn with
  | nil => exact ⟨nofun, nofun, nofun⟩
  | append_singleton before last ih =>
      have apart : empty.run (before ++ [last]) = ((empty.run before).perform last).workspace := List.foldl_append ..
      have reachable : (empty.run before).Reachable := ⟨before, rfl⟩
      obtain ⟨book, trusted, change⟩ := reachable_change (empty.run before) reachable last
      have bound := reachable_bound (empty.run before) reachable
      rw [apart, record_append]
      constructor
      case given => exact owned_given book _ _ ih last change
      case kept => exact owned_kept book _ _ ih last change trusted bound
      case built => exact owned_built book _ _ ih last change

end Workspace

structure Ownership (ws : Workspace) (journal : Journal) : Prop where
  owner : ∀ (t : Nat) (table : BlockTable) (id : Nat), ws.tables[t]? = some table →
    (table.owner = some id ↔ ∃ (m : Nat) (store : Store), ws.stores[m]? = some store ∧ store.id = id ∧
      journal.Since t (Entry.Extends t m))
  built : ∀ (t k : Nat) (table : BlockTable) (block : Block), ws.tables[t]? = some table →
    table.blocks[k]? = some block → ∃ m, journal.Since t (Entry.Builds t k m)
  builder : ∀ (t k m : Nat) (table : BlockTable), ws.tables[t]? = some table → journal.Since t (Entry.Builds t k m) →
    ∃ store, ws.stores[m]? = some store ∧ table.owner = some store.id
  unowned : ∀ (t : Nat) (table : BlockTable), ws.tables[t]? = some table → table.owner = none → table.blocks = #[]
  accepted : ∀ (m t : Nat) (store : Store) (table : BlockTable), ws.stores[m]? = some store →
    ws.tables[t]? = some table → table.owner = none ∨ table.owner = some store.id → ∀ call : Call, call.Meets ws m t →
      ∀ refusal, (ws.turn call).said.failure = some (.refused refusal) → refusal.kind ≠ .state
  foreign : ∀ (m k t : Nat) (home store : Store) (table : BlockTable), ws.stores[m]? = some home →
    ws.stores[k]? = some store → k ≠ m → ws.tables[t]? = some table → table.owner = some home.id →
      (∀ call : Call, call.Meets ws k t → ws.turn call = ⟨call.refused (.foreignStore home.id store.id), [], ws⟩) ∧
      ∀ {σ : Type} (write : σ → String → Bool × σ) (sink : σ) (f : Ref), ws.printing k t write sink f =
        (.error (.refused (.foreignStore home.id store.id)), ⟨sink, []⟩)

theorem run_ownership (commands : List Command) :
    Ownership (Workspace.empty.run commands) (Workspace.empty.record [] commands) := by
  have reachable : (Workspace.empty.run commands).Reachable := ⟨commands, rfl⟩
  have bound := Workspace.reachable_bound _ reachable
  have owned := Workspace.record_owned commands
  have builder : ∀ (t m : Nat) (table : BlockTable), (Workspace.empty.run commands).tables[t]? = some table →
      ∀ store, (Workspace.empty.run commands).stores[m]? = some store →
        ((Workspace.empty.record [] commands).Since t fun entry => ∃ k, entry.Builds t k m) →
          table.owner = some store.id := by
    intro t m table tabled store found since
    obtain ⟨same, sameTable, sameFound, sameTabled, mine⟩ := owned.kept t m since
    obtain rfl := Option.some.inj (sameFound.symm.trans found)
    obtain rfl := Option.some.inj (sameTabled.symm.trans tabled)
    exact mine
  constructor
  case owner =>
    intro t table id tabled
    refine ⟨owned.given t table id tabled, ?_⟩
    rintro ⟨m, store, found, rfl, since⟩
    have builds := Journal.since_mono _ t _ _ (Entry.extends_builds t m) since
    exact builder t m table tabled store found builds
  case built => exact owned.built
  case builder =>
    intro t k m table tabled since
    have builds := Journal.since_mono _ t _ (fun entry => ∃ k, entry.Builds t k m) (fun _ builds => ⟨k, builds⟩) since
    obtain ⟨store, _, found, _⟩ := owned.kept t m builds
    exact ⟨store, found, builder t m table tabled store found builds⟩
  case unowned =>
    intro t table tabled none
    rcases bound.owners t table tabled with ⟨_, empty⟩ | ⟨id, some, _⟩
    · exact empty
    · exact nomatch none.symm.trans some
  case accepted =>
    intro m t store table found tabled mine call meets
    exact Workspace.owned_turn _ m t store table found tabled reachable
      ((BlockTable.check_owner_ok table store).mpr mine) call meets
  case foreign =>
    intro m k t home store table homeFound found apart tabled mine
    have foreign : home.id ≠ store.id := fun same => apart (bound.distinct m k home store homeFound found same).symm
    have turned := table.check_owner_error store home.id mine foreign
    exact ⟨Workspace.foreign_turn _ k t store table found tabled _ turned,
      fun write sink f => Workspace.foreign_printing _ k t store table found tabled _ turned write sink f⟩

-- The table has gone from one store to another, and the first one is turned
-- down before the indices are looked at.
example : ((Workspace.empty.run [.newStore {}, .newStore {}, .newTable, .extend 0 0 [3], .teardown 0 0,
    .extend 1 0 [2]]).turn (.change (.overlap 0 0 7 9))).said.refusal = some (.foreignStore 2 1) := by
  decide +kernel

end DomainDiagram
