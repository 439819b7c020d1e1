import DomainDiagram.Proofs.Journal

set_option autoImplicit false

namespace DomainDiagram

open Store

namespace BlockTable

theorem total_set (widths : List Nat) (i old width : Nat) (found : widths[i]? = some old) :
    total (widths.set i width) + old = total widths + width := by
  induction widths generalizing i with
  | nil => exact nomatch found
  | cons first rest ih =>
      cases i with
      | zero =>
          obtain rfl := Option.some.inj found
          rw [List.set_cons_zero, total_cons, total_cons]
          lia
      | succ i =>
          have later := ih i found
          rw [List.set_cons_succ, total_cons, total_cons]
          lia

theorem total_append (widths more : List Nat) : total (widths ++ more) = total widths + total more := by
  induction widths with
  | nil => exact (Nat.zero_add _).symm
  | cons first rest ih =>
      simp [ih, Nat.add_assoc]

def uses (table : BlockTable) (id : Nat) (f : Ref) : Nat :=
  if table.owner = some id then Block.uses table.blocks.toList f else 0

theorem uses_owned (table : BlockTable) (id : Nat) (f : Ref) (owned : table.owner = some id) :
    table.uses id f = Block.uses table.blocks.toList f := if_pos owned

theorem uses_foreign (table : BlockTable) (id : Nat) (f : Ref) (foreign : table.owner ≠ some id) :
    table.uses id f = 0 := if_neg foreign

theorem uses_empty (id : Nat) (f : Ref) : empty.uses id f = 0 := uses_foreign empty id f nofun

theorem unlisted (table : BlockTable) (none : table.blocks = #[]) (i : Nat) (block : Block) :
    table.blocks[i]? ≠ some block := by
  rw [none]
  exact nofun

theorem uses_owner (table : BlockTable) (id : Nat)
    (owned : (table.owner = none ∧ table.blocks = #[]) ∨ table.owner = some id) (f : Ref) :
    table.uses id f = Block.uses table.blocks.toList f := by
  rcases owned with ⟨none, empty⟩ | mine
  · rw [empty, table.uses_foreign _ _ (none ▸ nofun)]
    rfl
  · exact table.uses_owned _ _ mine

end BlockTable

namespace Workspace

def uses (ws : Workspace) (id : Nat) (f : Ref) : Nat :=
  BlockTable.total (ws.tables.toList.map (·.uses id f))

theorem uses_set_table (ws : Workspace) (t : Nat) (table later : BlockTable) (tabled : ws.tables[t]? = some table)
    (id : Nat) (f : Ref) :
    (ws.setTable t later).uses id f + table.uses id f = ws.uses id f + later.uses id f := by
  have listed : (ws.tables.toList.map (·.uses id f))[t]? = some (table.uses id f) := by
    rw [List.getElem?_map, Array.getElem?_toList, tabled]
    rfl
  have set : (ws.setTable t later).tables.toList.map (·.uses id f) =
      (ws.tables.toList.map (·.uses id f)).set t (later.uses id f) := by
    rw [setTable, Array.toList_setIfInBounds, List.map_set]
  rw [uses, uses, set]
  exact BlockTable.total_set _ t _ _ listed

theorem set_store_cases (ws : Workspace) (m : Nat) (store next : Store) (found : ws.stores[m]? = some store)
    (k : Nat) (other : Store) (after : (ws.setStore m next).stores[k]? = some other) :
    (k = m ∧ other = next) ∨ (k ≠ m ∧ ws.stores[k]? = some other) := by
  by_cases same : k = m
  · subst same
    exact .inl ⟨rfl, Option.some.inj (after.symm.trans (set_store_found ws k store next found))⟩
  · have elsewhere : (ws.setStore m next).stores[k]? = ws.stores[k]? :=
      Array.getElem?_setIfInBounds_ne (Ne.symm same)
    exact .inr ⟨same, elsewhere.symm.trans after⟩

theorem set_table_found (ws : Workspace) (t : Nat) (table later : BlockTable) (tabled : ws.tables[t]? = some table) :
    (ws.setTable t later).tables[t]? = some later :=
  Array.getElem?_setIfInBounds_self_of_lt (Array.getElem?_eq_some_iff.mp tabled).1

theorem set_table_cases (ws : Workspace) (t : Nat) (table later : BlockTable) (tabled : ws.tables[t]? = some table)
    (k : Nat) (other : BlockTable) (after : (ws.setTable t later).tables[k]? = some other) :
    (k = t ∧ other = later) ∨ (k ≠ t ∧ ws.tables[k]? = some other) := by
  by_cases same : k = t
  · subst same
    exact .inl ⟨rfl, Option.some.inj (after.symm.trans (set_table_found ws k table later tabled))⟩
  · have elsewhere : (ws.setTable t later).tables[k]? = ws.tables[k]? :=
      Array.getElem?_setIfInBounds_ne (Ne.symm same)
    exact .inr ⟨same, elsewhere.symm.trans after⟩

theorem push_found {α : Type} (items : Array α) (a b : α) (i : Nat) (found : items[i]? = some b) :
    (items.push a)[i]? = some b := by
  rw [Array.getElem?_push, if_neg (Nat.ne_of_lt (Array.getElem?_eq_some_iff.mp found).1)]
  exact found

theorem push_cases {α : Type} (items : Array α) (a b : α) (i : Nat) (after : (items.push a)[i]? = some b) :
    (i = items.size ∧ b = a) ∨ items[i]? = some b := by
  rw [Array.getElem?_push] at after
  split at after
  · next last => exact .inl ⟨last, (Option.some.inj after).symm⟩
  · exact .inr after

-- Identities name one store each, and only a table that belongs to one has blocks.
structure Bound (ws : Workspace) : Prop where
  ids : ∀ (m : Nat) (store : Store), ws.stores[m]? = some store → store.id < ws.nextStore
  distinct : ∀ (m k : Nat) (a b : Store), ws.stores[m]? = some a → ws.stores[k]? = some b → a.id = b.id → m = k
  owners : ∀ (t : Nat) (table : BlockTable), ws.tables[t]? = some table →
    (table.owner = none ∧ table.blocks = #[]) ∨ ∃ id, table.owner = some id ∧ id < ws.nextStore

end Workspace

theorem work_id (book : Book) (m : Nat) (store next : Store) (mark : Mark) (did : Work book m store next mark) :
    next.id = store.id := by
  cases did with
  | build follows _ _ => exact follows.id
  | hold _ follows _ _ => exact follows.id
  | release _ follows _ _ => exact follows.id
  | collect _ id _ _ => exact id

theorem block_work_owner (entry : Entry) (m t : Nat) (store next : Store) (table later : BlockTable) (mark : Mark)
    (owned : (table.owner = none ∧ table.blocks = #[]) ∨ table.owner = some store.id)
    (did : BlockWork entry m t store next table later mark) :
    (later.owner = none ∧ later.blocks = #[]) ∨ later.owner = some store.id := by
  cases did with
  | extend sizes rows added planned same grown =>
      rcases grown.owner with mine | ⟨rfl, kept⟩
      · exact .inr mine
      · rcases owned with ⟨none, empty⟩ | mine
        · refine .inl ⟨kept.trans none, ?_⟩
          rw [grown.blocks, empty]
          rfl
        · exact .inr (kept.trans mine)
  | overlap left right a b set first _ _ blocks _ =>
      rcases owned with ⟨_, empty⟩ | mine
      · exact absurd first (table.unlisted empty left a)
      · exact .inr (blocks ▸ mine)
  | teardown blocks _ => exact .inl (blocks ▸ ⟨rfl, rfl⟩)
  | short f blocks lacking =>
      subst blocks
      exact owned.imp_left fun unowned => ⟨unowned.1, rfl⟩

theorem uses_covered (id : Nat) (table : BlockTable) (store : Store)
    (owned : (table.owner = none ∧ table.blocks = #[]) ∨ table.owner = some id)
    (covered : ∀ f, 2 ≤ f → table.uses id f ≤ store.tally f) (f : Ref) :
    Block.uses table.blocks.toList f ≤ store.tally f := by
  rcases Ref.terminal_or f with small | large
  · rw [Block.uses_terminal _ f small]
    exact Nat.zero_le _
  · rw [← table.uses_owner id owned]
    exact covered f large

theorem block_work_balance (entry : Entry) (m t : Nat) (store next : Store) (table later : BlockTable) (mark : Mark)
    (owned : (table.owner = none ∧ table.blocks = #[]) ∨ table.owner = some store.id)
    (covered : ∀ f, 2 ≤ f → table.uses store.id f ≤ store.tally f)
    (did : BlockWork entry m t store next table later mark) (f : Ref) :
    later.uses store.id f + store.tally f = table.uses store.id f + next.tally f := by
  have start : table.uses store.id f = Block.uses table.blocks.toList f := table.uses_owner store.id owned f
  have total : later.uses store.id f = Block.uses later.blocks.toList f :=
    later.uses_owner store.id (block_work_owner entry m t store next table later mark owned did) f
  cases did with
  | extend sizes rows added planned same grown =>
      have gained := grown.tally f
      rw [grown.blocks, Array.toList_append, Block.uses_append] at total
      lia
  | overlap left right a b set first second joined blocks tally =>
      have gained := tally f
      subst blocks
      rw [Array.toList_push, Block.uses_append] at total
      simp only [Block.uses, Nat.add_zero] at total
      lia
  | teardown blocks tally =>
      have none : later.uses store.id f = 0 := blocks ▸ BlockTable.uses_empty store.id f
      have spent := tally f
      lia
  | short g blocks lacking =>
      exact absurd lacking (Nat.not_lt_of_le (uses_covered store.id table store owned covered g))

namespace Workspace

theorem bound_set_store (ws : Workspace) (bound : ws.Bound) (m : Nat) (store next : Store)
    (found : ws.stores[m]? = some store) (same : next.id = store.id) : (ws.setStore m next).Bound := by
  have before : ∀ (k : Nat) (other : Store), (ws.setStore m next).stores[k]? = some other →
      ∃ old, ws.stores[k]? = some old ∧ other.id = old.id := by
    intro k other after
    rcases set_store_cases ws m store next found k other after with ⟨rfl, rfl⟩ | ⟨_, old⟩
    · exact ⟨store, found, same⟩
    · exact ⟨other, old, rfl⟩
  refine ⟨fun k other after => ?_, fun k l a b left right equal => ?_, bound.owners⟩
  · obtain ⟨old, oldFound, id⟩ := before k other after
    exact id ▸ bound.ids k old oldFound
  · obtain ⟨c, cFound, aId⟩ := before k a left
    obtain ⟨d, dFound, bId⟩ := before l b right
    exact bound.distinct k l c d cFound dFound (aId.symm.trans (equal.trans bId))

theorem bound_set_table (ws : Workspace) (bound : ws.Bound) (t : Nat) (table later : BlockTable)
    (tabled : ws.tables[t]? = some table) (owner : (later.owner = none ∧ later.blocks = #[]) ∨
      ∃ id, later.owner = some id ∧ id < ws.nextStore) : (ws.setTable t later).Bound := by
  refine ⟨bound.ids, bound.distinct, fun k other after => ?_⟩
  rcases set_table_cases ws t table later tabled k other after with ⟨_, rfl⟩ | ⟨_, old⟩
  · exact owner
  · exact bound.owners k other old

theorem bound_owned (ws : Workspace) (bound : ws.Bound) (t id : Nat) (table : BlockTable)
    (tabled : ws.tables[t]? = some table) (owned : table.owner = none ∨ table.owner = some id) :
    (table.owner = none ∧ table.blocks = #[]) ∨ table.owner = some id := by
  rcases owned with none | mine
  · rcases bound.owners t table tabled with empty | ⟨other, some, _⟩
    · exact .inl empty
    · rw [none] at some
      exact nomatch some
  · exact .inr mine

end Workspace

theorem bound_change (book : Book) (ws : Workspace) (entry : Entry) (bound : ws.Bound)
    (change : Change book ws entry) : entry.reply.workspace.Bound := by
  have later : ∀ (t : Nat) (table : BlockTable), ws.tables[t]? = some table → ∀ next, ws.nextStore ≤ next →
      (table.owner = none ∧ table.blocks = #[]) ∨ ∃ id, table.owner = some id ∧ id < next := by
    intro t table tabled next above
    refine (bound.owners t table tabled).imp_right fun ⟨owner, owned, less⟩ => ?_
    exact ⟨owner, owned, Nat.lt_of_lt_of_le less above⟩
  cases change with
  | idle _ stores tables next =>
      refine ⟨fun m store found => ?_, fun m k a b left right => ?_, fun t table found => ?_⟩
      · exact Nat.lt_of_lt_of_le (bound.ids m store (stores ▸ found)) next
      · exact bound.distinct m k a b (stores ▸ left) (stores ▸ right)
      · exact later t table (tables ▸ found) _ next
  | store fresh _ first stores tables next =>
      have old : ∀ (m : Nat) (store : Store), entry.reply.workspace.stores[m]? = some store →
          (m = ws.stores.size ∧ store = fresh) ∨ ws.stores[m]? = some store := fun m store found =>
        Workspace.push_cases ws.stores fresh store m (stores ▸ found)
      refine ⟨fun m store found => ?_, fun m k a b left right same => ?_, fun t table found => ?_⟩
      · rcases old m store found with ⟨_, rfl⟩ | before
        · exact first ▸ next
        · exact Nat.lt_trans (bound.ids m store before) next
      · rcases old m a left with ⟨atEnd, rfl⟩ | leftOld <;> rcases old k b right with ⟨alsoEnd, rfl⟩ | rightOld
        · exact atEnd.trans alsoEnd.symm
        · exact absurd (bound.ids k b rightOld) (by lia)
        · exact absurd (bound.ids m a leftOld) (by lia)
        · exact bound.distinct m k a b leftOld rightOld same
      · exact later t table (tables ▸ found) _ (Nat.le_of_lt next)
  | table _ stores tables next =>
      refine ⟨fun m store found => ?_, fun m k a b left right => ?_, fun t table found => ?_⟩
      · exact next ▸ bound.ids m store (stores ▸ found)
      · exact bound.distinct m k a b (stores ▸ left) (stores ▸ right)
      · rcases Workspace.push_cases ws.tables .empty table t (tables ▸ found) with ⟨_, rfl⟩ | before
        · exact .inl ⟨rfl, rfl⟩
        · exact later t table before _ (Nat.le_of_eq next.symm)
  | work m store next found after did =>
      rw [after]
      exact Workspace.bound_set_store ws bound m store next found (work_id book m store next _ did)
  | blocks m t store next table final found tabled owned after follows coherent did =>
      rw [after]
      have middle := Workspace.bound_set_store ws bound m store next found follows.id
      refine Workspace.bound_set_table _ middle t table final tabled ?_
      have mine := Workspace.bound_owned ws bound t store.id table tabled owned
      exact (block_work_owner _ _ t store next table final _ mine did).imp_right fun owner =>
        ⟨store.id, owner, bound.ids m store found⟩

namespace Workspace

theorem uses_tables (ws later : Workspace) (same : later.tables = ws.tables) (id : Nat) (f : Ref) :
    later.uses id f = ws.uses id f := by
  rw [uses, uses, same]

theorem uses_push (ws later : Workspace) (pushed : later.tables = ws.tables.push .empty) (id : Nat) (f : Ref) :
    later.uses id f = ws.uses id f := by
  rw [uses, pushed, Array.toList_push, List.map_append, BlockTable.total_append]
  rfl

theorem uses_fresh (ws : Workspace) (bound : ws.Bound) (id : Nat) (fresh : ws.nextStore ≤ id) (f : Ref) :
    ws.uses id f = 0 := by
  have none : ∀ n ∈ ws.tables.toList.map (·.uses id f), n = 0 := by
    intro n member
    obtain ⟨table, listed, rfl⟩ := List.mem_map.mp member
    obtain ⟨t, tabled⟩ := List.mem_iff_getElem?.mp listed
    refine table.uses_foreign id f fun mine => ?_
    rcases bound.owners t table (Array.getElem?_toList.symm.trans tabled) with ⟨none, _⟩ | ⟨owner, owned, less⟩
    · rw [none] at mine
      exact nomatch mine
    · have same := Option.some.inj (owned.symm.trans mine)
      lia
  rw [uses]
  generalize ws.tables.toList.map (·.uses id f) = counts at none
  induction counts with
  | nil => rfl
  | cons n rest ih =>
      obtain ⟨zero, others⟩ := List.forall_mem_cons.mp none
      have later := ih others
      rw [BlockTable.total] at later ⊢
      rw [List.foldr_cons, later, zero]

theorem uses_part (ws : Workspace) (t : Nat) (table : BlockTable) (tabled : ws.tables[t]? = some table) (id : Nat)
    (f : Ref) : table.uses id f ≤ ws.uses id f := by
  have cleared := uses_set_table ws t table .empty tabled id f
  rw [BlockTable.uses_empty] at cleared
  lia

theorem uses_none (table : BlockTable) (id other : Nat)
    (owned : (table.owner = none ∧ table.blocks = #[]) ∨ table.owner = some id) (foreign : other ≠ id) (f : Ref) :
    table.uses other f = 0 := by
  refine table.uses_foreign other f fun mine => ?_
  rcases owned with ⟨none, _⟩ | same
  · exact nomatch none.symm.trans mine
  · exact foreign (Option.some.inj (mine.symm.trans same))

-- Nothing is held in a store that is not there, and the count on a decision
-- covers the holds of the client and those of the tables.
structure Covered (ws : Workspace) (journal : Journal) : Prop where
  absent : ∀ (m : Nat) (f : Ref), ws.stores[m]? = none → journal.holds m f = 0
  enough : ∀ (m : Nat) (store : Store) (f : Ref), ws.stores[m]? = some store → 2 ≤ f →
    journal.holds m f + ws.uses store.id f ≤ store.tally f

theorem covered_table (ws : Workspace) (journal : Journal) (covered : ws.Covered journal) (m t : Nat) (store : Store)
    (table : BlockTable) (found : ws.stores[m]? = some store) (tabled : ws.tables[t]? = some table) (f : Ref)
    (large : 2 ≤ f) : table.uses store.id f ≤ store.tally f :=
  Nat.le_trans (uses_part ws t table tabled store.id f)
    (Nat.le_trans (Nat.le_add_left _ _) (covered.enough m store f found large))

end Workspace

theorem holds_elsewhere (book : Book) (m : Nat) (store next : Store) (mark : Mark)
    (did : Work book m store next mark) (k : Nat) (other : k ≠ m) (f : Ref) (n : Nat) : mark.holds k f n = n := by
  have apart : ∀ g, ¬ (m = k ∧ g = f) := fun _ same => other same.1.symm
  cases did with
  | build _ _ _ => rfl
  | hold g _ _ _ => exact if_neg (apart g)
  | release g _ _ _ => exact if_neg (apart g)
  | collect _ _ _ _ => rfl

theorem block_work_holds (entry : Entry) (m t : Nat) (store next : Store) (table later : BlockTable) (mark : Mark)
    (did : BlockWork entry m t store next table later mark) (k : Nat) (f : Ref) (n : Nat) : mark.holds k f n = n := by
  cases did <;> rfl

theorem work_balance (book : Book) (m : Nat) (store next : Store) (mark : Mark)
    (did : Work book m store next mark) (f : Ref) (large : 2 ≤ f) (n : Nat) (allowed : mark = .released m f → 0 < n) :
    store.tally f + mark.holds m f n ≤ next.tally f + n ∧
      (mark = .none ∨ store.tally f + mark.holds m f n = next.tally f + n) := by
  have once : ∀ g : Ref, g.once f = if m = m ∧ g = f then 1 else 0 := by
    intro g
    unfold Ref.once
    refine if_congr ⟨fun both => ⟨rfl, both.2.symm⟩, fun both => ⟨both.2 ▸ large, both.2.symm⟩⟩ rfl rfl
  cases did with
  | build _ _ tally => exact ⟨Nat.add_le_add_right (tally f) n, .inl rfl⟩
  | hold g _ _ tally =>
      have gained := tally f
      have even : store.tally f + (Mark.held m g).holds m f n = next.tally f + n := by
        rw [once] at gained
        rw [Mark.holds]
        split at gained <;> lia
      exact ⟨Nat.le_of_eq even, .inr even⟩
  | release g _ _ tally =>
      have spent := tally f
      have even : store.tally f + (Mark.released m g).holds m f n = next.tally f + n := by
        rw [once] at spent
        rw [Mark.holds]
        split at spent
        · next same =>
            have own := allowed (by rw [same.2])
            lia
        · next other => lia
      exact ⟨Nat.le_of_eq even, .inr even⟩
  | collect freed _ _ collected =>
      have same : store.tally f = next.tally f := by
        rw [tally, tally, collected.counts]
      have even : store.tally f + (Mark.collected m).holds m f n = next.tally f + n := congrArg (· + n) same
      exact ⟨Nat.le_of_eq even, .inr even⟩

theorem allowed_own (journal : Journal) (entry : Entry) (allowed : journal.Allows entry.command) (m : Nat) (f : Ref)
    (large : 2 ≤ f) (released : entry.mark = .released m f) : 0 < journal.holds m f := by
  rw [Entry.mark_released entry m f released] at allowed
  exact allowed.resolve_left (Nat.not_le_of_lt large)

def Workspace.dues (ws : Workspace) (journal : Journal) (m : Nat) (store : Store) (f : Ref) : Nat :=
  journal.holds m f + ws.uses store.id f

-- A count has gained what is held more on the diagram, or the request failed,
-- left the holds as they were and took nothing off the count.
def Entry.Pays (entry : Entry) (ws : Workspace) (journal : Journal) (m : Nat) (store next : Store) (f : Ref) : Prop :=
  store.tally f + entry.reply.workspace.dues (entry :: journal) m next f = next.tally f + ws.dues journal m store f ∨
    (store.tally f ≤ next.tally f ∧
      entry.reply.workspace.dues (entry :: journal) m next f = ws.dues journal m store f ∧
      ∃ failure, entry.reply.outcome = .error failure)

theorem pays_same (ws : Workspace) (journal : Journal) (entry : Entry) (m : Nat) (store : Store) (f : Ref)
    (same : entry.reply.workspace.dues (entry :: journal) m store f = ws.dues journal m store f) :
    entry.Pays ws journal m store store f := .inl (congrArg (store.tally f + ·) same)

theorem work_pays (book : Book) (ws : Workspace) (journal : Journal) (entry : Entry)
    (allowed : journal.Allows entry.command) (m : Nat) (store next : Store) (found : ws.stores[m]? = some store)
    (after : entry.reply.workspace = ws.setStore m next) (did : Work book m store next entry.mark)
    (settled : ∀ answer, entry.reply.outcome = .ok answer → entry.mark = .none → ∀ f, next.tally f = store.tally f)
    (k : Nat) (other : Store) (f : Ref) (later : entry.reply.workspace.stores[k]? = some other) (large : 2 ≤ f) :
    ∃ old, ws.stores[k]? = some old ∧ entry.Pays ws journal k old other f := by
  have uses : ∀ id, entry.reply.workspace.uses id f = ws.uses id f := fun id =>
    Workspace.uses_tables ws _ (after ▸ rfl) id f
  rw [after] at later
  rcases Workspace.set_store_cases ws m store next found k other later with ⟨rfl, rfl⟩ | ⟨apart, before⟩
  · refine ⟨store, found, ?_⟩
    have id := work_id book k store other _ did
    have own := allowed_own journal entry allowed k f large
    obtain ⟨most, quiet | even⟩ := work_balance book k store other _ did f large (journal.holds k f) own
    · have still : entry.mark.holds k f (journal.holds k f) = journal.holds k f := by
        rw [quiet]
        rfl
      have same : entry.reply.workspace.dues (entry :: journal) k other f = ws.dues journal k store f := by
        rw [Workspace.dues, Journal.holds, still, uses, id, Workspace.dues]
      cases outcome : entry.reply.outcome with
      | ok answer =>
          refine .inl ?_
          rw [same, settled answer outcome quiet f]
      | error failure => exact .inr ⟨by lia, same, failure, outcome⟩
    · refine .inl ?_
      rw [Workspace.dues, Workspace.dues, Journal.holds, uses, id]
      lia
  · refine ⟨other, before, pays_same ws journal entry k other f ?_⟩
    rw [Workspace.dues, Workspace.dues, Journal.holds, holds_elsewhere book m store next _ did k apart, uses]

theorem block_work_pays (ws : Workspace) (journal : Journal) (entry : Entry) (bound : ws.Bound)
    (covered : ws.Covered journal) (m t : Nat) (store next : Store) (table final : BlockTable)
    (found : ws.stores[m]? = some store) (tabled : ws.tables[t]? = some table)
    (owned : table.owner = none ∨ table.owner = some store.id) (same : next.id = store.id)
    (after : entry.reply.workspace = (ws.setStore m next).setTable t final)
    (did : BlockWork entry m t store next table final entry.mark) (k : Nat) (other : Store) (f : Ref)
    (later : entry.reply.workspace.stores[k]? = some other) :
    ∃ old, ws.stores[k]? = some old ∧ entry.Pays ws journal k old other f := by
  have mine := Workspace.bound_owned ws bound t store.id table tabled owned
  have still : Journal.holds k f (entry :: journal) = journal.holds k f :=
    block_work_holds entry m t store next table final _ did k f _
  have total : ∀ id, entry.reply.workspace.uses id f + table.uses id f = ws.uses id f + final.uses id f := by
    intro id
    rw [after, Workspace.uses_set_table (ws.setStore m next) t table final tabled,
      Workspace.uses_tables ws (ws.setStore m next) rfl]
  rw [after] at later
  rcases Workspace.set_store_cases ws m store next found k other later with ⟨rfl, rfl⟩ | ⟨apart, before⟩
  · refine ⟨store, found, .inl ?_⟩
    have part := Workspace.covered_table ws journal covered k t store table found tabled
    have balance := block_work_balance entry k t store other table final _ mine part did f
    have moved := total store.id
    rw [Workspace.dues, Workspace.dues, still, same]
    lia
  · refine ⟨other, before, pays_same ws journal entry k other f ?_⟩
    have foreign : other.id ≠ store.id := fun equal => apart (bound.distinct k m other store before found equal)
    have none := Workspace.uses_none table store.id other.id mine foreign f
    have alsoNone := Workspace.uses_none final store.id other.id
      (block_work_owner entry m t store next table final _ mine did) foreign f
    have moved := total other.id
    rw [Workspace.dues, Workspace.dues, still]
    lia

theorem change_pays (book : Book) (ws : Workspace) (journal : Journal) (entry : Entry) (bound : ws.Bound)
    (covered : ws.Covered journal) (allowed : journal.Allows entry.command) (change : Change book ws entry) (m : Nat)
    (next : Store) (f : Ref) (later : entry.reply.workspace.stores[m]? = some next) (large : 2 ≤ f) :
    (next.tally f = 0 ∧ entry.reply.workspace.dues (entry :: journal) m next f = 0) ∨
      ∃ store, ws.stores[m]? = some store ∧ entry.Pays ws journal m store next f := by
  cases change with
  | idle quiet stores tables _ =>
      refine .inr ⟨next, stores ▸ later, pays_same ws journal entry m next f ?_⟩
      rw [Workspace.dues, Workspace.dues, journal.holds_quiet entry quiet, Workspace.uses_tables ws _ tables]
  | store fresh quiet first stores tables _ unheld =>
      have same : ∀ other : Store,
          entry.reply.workspace.dues (entry :: journal) m other f = ws.dues journal m other f := by
        intro other
        rw [Workspace.dues, Workspace.dues, journal.holds_quiet entry quiet, Workspace.uses_tables ws _ tables]
      rw [stores] at later
      rcases Workspace.push_cases ws.stores fresh next m later with ⟨rfl, rfl⟩ | before
      · have none := covered.absent _ f (Array.getElem?_eq_none_iff.mpr (Nat.le_refl ws.stores.size))
        have unused := Workspace.uses_fresh ws bound next.id (Nat.le_of_eq first.symm) f
        refine .inl ⟨unheld f, ?_⟩
        rw [same, Workspace.dues, none, unused]
      · exact .inr ⟨next, before, pays_same ws journal entry m next f (same next)⟩
  | table quiet stores tables _ =>
      refine .inr ⟨next, stores ▸ later, pays_same ws journal entry m next f ?_⟩
      rw [Workspace.dues, Workspace.dues, journal.holds_quiet entry quiet, Workspace.uses_push ws _ tables]
  | work k store other found after did settled =>
      exact .inr (work_pays book ws journal entry allowed k store other found after did settled m next f later large)
  | blocks k t store other table final found tabled owned after follows _ did =>
      exact .inr (block_work_pays ws journal entry bound covered k t store other table final found tabled owned
        follows.id after did m next f later)

theorem absent_change (book : Book) (ws : Workspace) (journal : Journal) (entry : Entry)
    (change : Change book ws entry) (m : Nat) (f : Ref) (gone : entry.reply.workspace.stores[m]? = none) :
    ws.stores[m]? = none ∧ Journal.holds m f (entry :: journal) = journal.holds m f := by
  have apart : ∀ (k : Nat) (store next : Store), ws.stores[k]? = some store →
      (ws.setStore k next).stores[m]? = none → m ≠ k ∧ ws.stores[m]? = none := by
    intro k store next found gone
    have other : m ≠ k := by
      rintro rfl
      exact nomatch (Workspace.set_store_found ws m store next found).symm.trans gone
    exact ⟨other, (Array.getElem?_setIfInBounds_ne (Ne.symm other)).symm.trans gone⟩
  cases change with
  | idle quiet stores _ _ => exact ⟨stores ▸ gone, journal.holds_quiet entry quiet m f⟩
  | store fresh quiet _ stores _ _ _ =>
      rw [stores, Array.getElem?_eq_none_iff, Array.size_push] at gone
      exact ⟨Array.getElem?_eq_none_iff.mpr (Nat.le_of_succ_le gone), journal.holds_quiet entry quiet m f⟩
  | table quiet stores _ _ => exact ⟨stores ▸ gone, journal.holds_quiet entry quiet m f⟩
  | work k store next found after did _ =>
      rw [after] at gone
      obtain ⟨other, before⟩ := apart k store next found gone
      exact ⟨before, holds_elsewhere book k store next _ did m other f _⟩
  | blocks k t store next table final found _ _ after _ _ did =>
      rw [after] at gone
      exact ⟨(apart k store next found gone).2, block_work_holds entry k t store next table final _ did m f _⟩

theorem covered_change (book : Book) (ws : Workspace) (journal : Journal) (entry : Entry) (bound : ws.Bound)
    (covered : ws.Covered journal) (allowed : journal.Allows entry.command) (change : Change book ws entry) :
    entry.reply.workspace.Covered (entry :: journal) := by
  refine ⟨fun m f gone => ?_, fun m next f later large => ?_⟩
  · obtain ⟨before, same⟩ := absent_change book ws journal entry change m f gone
    rw [same]
    exact covered.absent m f before
  · have pays := change_pays book ws journal entry bound covered allowed change m next f later large
    change entry.reply.workspace.dues (entry :: journal) m next f ≤ next.tally f
    rcases pays with ⟨_, none⟩ | ⟨store, found, gained | ⟨grown, same, _⟩⟩
    · lia
    · have enough : ws.dues journal m store f ≤ store.tally f := covered.enough m store f found large
      lia
    · have enough : ws.dues journal m store f ≤ store.tally f := covered.enough m store f found large
      lia

end DomainDiagram
