import DomainDiagram.Proofs.Shapes

set_option autoImplicit false

namespace DomainDiagram

open Store

def Entry.made (m : Nat) (entry : Entry) : List Block :=
  match entry.command, entry.reply.outcome with
  | .extend k t _, .ok (.index first) =>
      if k = m then (entry.reply.workspace.tables[t]?.map (·.blocks.toList.drop first)).getD [] else []
  | _, _ => []

def Entry.Joins (t k left right : Nat) (entry : Entry) : Prop :=
  ∃ m, entry.command = .overlap m t left right ∧ entry.reply.outcome = .ok (.index k)

namespace Journal

-- All blocks that extensions have ever made in store m, in whatever table,
-- and whether the table has been torn down since or not.
def made (m : Nat) : Journal → List Block
  | [] => []
  | entry :: earlier => entry.made m ++ made m earlier

def Overlapped (t k left right : Nat) : Journal → Prop
  | [] => False
  | entry :: earlier => entry.Joins t k left right ∨ (entry.mark ≠ .cleared t ∧ Overlapped t k left right earlier)

end Journal

theorem Mark.lays_cases (mark : Mark) (t i : Nat) (before : Prop) (lays : mark.lays t i before) :
    (∃ first count, mark = .extended t first count ∧ first ≤ i ∧ i < first + count) ∨
      (mark ≠ .cleared t ∧ before) := by
  cases mark with
  | extended k first count =>
      rcases lays with ⟨rfl, above, below⟩ | old
      · exact .inl ⟨first, count, rfl, above, below⟩
      · exact .inr ⟨nofun, old⟩
  | cleared k => exact .inr ⟨fun same => lays.1 (Mark.cleared.inj same), lays.2⟩
  | _ => exact .inr ⟨nofun, lays⟩

theorem Mark.lays_stays (mark : Mark) (t i : Nat) (before : Prop) (stays : mark ≠ .cleared t) (old : before) :
    mark.lays t i before := by
  cases mark with
  | extended k first count => exact .inr old
  | cleared k => exact ⟨fun same => stays (congrArg Mark.cleared same), old⟩
  | _ => exact old

structure Extension (ws : Workspace) (entry : Entry) (m t first count : Nat) (store next : Store)
    (table later : BlockTable) (added : List Block) : Prop where
  found : ws.stores[m]? = some store
  after : entry.reply.workspace.stores[m]? = some next
  tabled : ws.tables[t]? = some table
  laterTabled : entry.reply.workspace.tables[t]? = some later
  first : first = table.size
  count : count = added.length
  planned : ∃ sizes, BlockTable.Planned store sizes (added.map fun block => (block.size, block.vars))
  grown : table.Grown later store next added
  made : ∀ k, entry.made k = if m = k then added else []

theorem made_unmarked (entry : Entry) (m : Nat) (other : ∀ t first count, entry.mark ≠ .extended t first count) :
    entry.made m = [] := by
  unfold Entry.made
  split
  · next k t sizes first asked answer => exact absurd (by simp [Entry.mark, asked, answer]) (other t first sizes.length)
  · rfl

theorem block_work_extended (entry : Entry) (m t : Nat) (store next : Store) (table later : BlockTable) (mark : Mark)
    (laterTabled : entry.reply.workspace.tables[t]? = some later)
    (did : BlockWork entry m t store next table later mark) (k first count : Nat)
    (marked : mark = .extended k first count) :
    k = t ∧ first = table.size ∧ ∃ added, count = added.length ∧
      (∃ sizes, BlockTable.Planned store sizes (added.map fun block => (block.size, block.vars))) ∧
      table.Grown later store next added ∧ ∀ l, entry.made l = if m = l then added else [] := by
  cases did with
  | extend sizes rows added planned same grown asked answer =>
      obtain ⟨rfl, rfl, rfl⟩ := Mark.extended.inj marked
      subst same
      have count : sizes.length = added.length := by
        have listed := congrArg List.length planned.sizes
        rwa [List.length_map, List.length_map, eq_comm] at listed
      refine ⟨rfl, rfl, added, count, ⟨sizes, planned⟩, grown, fun l => ?_⟩
      have dropped : later.blocks.toList.drop table.size = added := by
        rw [grown.blocks, Array.toList_append, BlockTable.size, ← Array.length_toList, List.drop_left]
      simp only [Entry.made, asked, answer, laterTabled, Option.map_some, Option.getD_some, dropped]
  | _ => exact nomatch marked

theorem change_extended (book : Book) (ws : Workspace) (entry : Entry) (change : Change book ws entry)
    (t first count : Nat) (marked : entry.mark = .extended t first count) :
    ∃ m store next table later added, Extension ws entry m t first count store next table later added := by
  cases change with
  | idle quiet _ _ _ => exact nomatch quiet.symm.trans marked
  | store _ quiet _ _ _ _ => exact nomatch quiet.symm.trans marked
  | table quiet _ _ _ => exact nomatch quiet.symm.trans marked
  | work m store next _ _ did => exact absurd marked ((work_apart book m store next _ did t).2 first count)
  | blocks m k store next table final found tabled owned after follows coherent did =>
      have stores : entry.reply.workspace.stores[m]? = some next := by
        rw [after]
        exact Workspace.set_store_found ws m store next found
      have tables : entry.reply.workspace.tables[k]? = some final := by
        rw [after]
        exact Workspace.set_table_found (ws.setStore m next) k table final tabled
      obtain ⟨rfl, rfl, added, size, planned, grown, made⟩ :=
        block_work_extended entry m k store next table final _ tables did t first count marked
      exact ⟨m, store, next, table, final, added, found, stores, tabled, tables, rfl, size, planned, grown, made⟩

structure Bred (ws : Workspace) (journal : Journal) : Prop where
  absent : ∀ m : Nat, ws.stores[m]? = none → journal.made m = []
  width : ∀ m : Nat, ∀ block ∈ journal.made m, block.width = bitWidth block.size ∧ block.vars.Pairwise (· < ·)
  inside : ∀ (m : Nat) (store : Store), ws.stores[m]? = some store → ∀ block ∈ journal.made m,
    ∀ v ∈ block.vars, v ≤ store.numVars
  apart : ∀ m : Nat, (journal.made m).Pairwise fun a b => a.vars.Disjoint b.vars

theorem bred_absent (book : Book) (ws : Workspace) (journal : Journal) (entry : Entry) (bred : Bred ws journal)
    (change : Change book ws entry) (m : Nat) (gone : entry.reply.workspace.stores[m]? = none) :
    journal.made m = [] := by
  cases found : ws.stores[m]? with
  | none => exact bred.absent m found
  | some store =>
      obtain ⟨next, after, _⟩ := change_grows book ws entry change m store found
      exact nomatch after.symm.trans gone

theorem bred_inside (book : Book) (ws : Workspace) (journal : Journal) (entry : Entry) (bred : Bred ws journal)
    (change : Change book ws entry) (m : Nat) (next : Store) (after : entry.reply.workspace.stores[m]? = some next)
    (block : Block) (member : block ∈ journal.made m) (v : Var) (there : v ∈ block.vars) : v ≤ next.numVars := by
  cases found : ws.stores[m]? with
  | none =>
      rw [bred.absent m found] at member
      exact nomatch member
  | some store =>
      obtain ⟨same, sameFound, _, grown⟩ := change_grows book ws entry change m store found
      obtain rfl := Option.some.inj (sameFound.symm.trans after)
      exact Nat.le_trans (bred.inside m store found block member v there) grown

theorem bred_extension (book : Book) (ws : Workspace) (journal : Journal) (entry : Entry) (bred : Bred ws journal)
    (change : Change book ws entry) (k t first count : Nat) (store next : Store) (table later : BlockTable)
    (added : List Block) (extension : Extension ws entry k t first count store next table later added) :
    Bred entry.reply.workspace (entry :: journal) := by
  obtain ⟨sizes, planned⟩ := extension.planned
  have listed : ∀ block ∈ added, (block.size, block.vars) ∈ added.map fun block => (block.size, block.vars) :=
    fun block member => List.mem_map_of_mem member
  have made : ∀ m, Journal.made m (entry :: journal) = (if k = m then added else []) ++ journal.made m := fun m =>
    congrArg (· ++ journal.made m) (extension.made m)
  have cases_made : ∀ m, ∀ block ∈ Journal.made m (entry :: journal),
      (k = m ∧ block ∈ added) ∨ block ∈ journal.made m := by
    intro m block member
    rw [made, List.mem_append] at member
    refine member.imp_left fun new => ?_
    split at new
    · next same => exact ⟨same, new⟩
    · exact nomatch new
  constructor
  case absent =>
    intro m gone
    have apart : k ≠ m := by
      rintro rfl
      exact nomatch extension.after.symm.trans gone
    rw [made, if_neg apart, bred_absent book ws journal entry bred change m gone, List.nil_append]
  case width =>
    intro m block member
    rcases cases_made m block member with ⟨_, new⟩ | old
    · exact ⟨planned.width _ (listed block new), planned.ascending _ (listed block new)⟩
    · exact bred.width m block old
  case inside =>
    intro m last after block member v there
    rcases cases_made m block member with ⟨rfl, new⟩ | old
    · obtain rfl := Option.some.inj (extension.after.symm.trans after)
      exact ((extension.grown.fits block new).allocated v there).2
    · exact bred_inside book ws journal entry bred change m last after block old v there
  case apart =>
    intro m
    rw [made, List.pairwise_append]
    by_cases same : k = m
    · subst same
      have pairs := List.pairwise_map.mp planned.apart
      rw [if_pos rfl]
      refine ⟨pairs, bred.apart k, fun a new b old v here there => ?_⟩
      have fresh := planned.fresh _ (listed a new) v here
      exact absurd fresh.1 (Nat.not_lt_of_le (bred.inside k store extension.found b old v there))
    · rw [if_neg same]
      exact ⟨.nil, bred.apart m, nofun⟩

theorem bred_change (book : Book) (ws : Workspace) (journal : Journal) (entry : Entry) (bred : Bred ws journal)
    (change : Change book ws entry) : Bred entry.reply.workspace (entry :: journal) := by
  by_cases marked : ∃ t first count, entry.mark = .extended t first count
  · obtain ⟨t, first, count, marked⟩ := marked
    obtain ⟨k, store, next, table, later, added, extension⟩ := change_extended book ws entry change t first count marked
    exact bred_extension book ws journal entry bred change k t first count store next table later added extension
  · have same : ∀ m, Journal.made m (entry :: journal) = journal.made m := fun m => by
      rw [Journal.made, made_unmarked entry m fun t first count here => marked ⟨t, first, count, here⟩, List.nil_append]
    constructor
    case absent => exact fun m gone => (same m).trans (bred_absent book ws journal entry bred change m gone)
    case width => exact fun m => (same m).symm ▸ bred.width m
    case inside => exact fun m next after => (same m).symm ▸ bred_inside book ws journal entry bred change m next after
    case apart => exact fun m => (same m).symm ▸ bred.apart m

namespace Workspace

theorem overlap_done (book : Book) (ws : Workspace) (trusted : ws.Trusted book) (m t left right k : Nat)
    (done : (ws.perform (.overlap m t left right)).outcome = .ok (.index k)) :
    ∃ (table later : BlockTable) (block a b : Block), ws.tables[t]? = some table ∧
      (ws.perform (.overlap m t left right)).workspace.tables[t]? = some later ∧ later.blocks[k]? = some block ∧
      later.blocks[left]? = some a ∧ later.blocks[right]? = some b ∧
      block.vars = a.vars ++ b.vars ∧ block.size = a.size * b.size := by
  obtain ⟨table, named, reached⟩ := found_done ws (ws.table t) _ _ done
  have tabled := table_found ws t table named
  simp only [perform, overlap] at done ⊢
  rw [reached] at done ⊢
  obtain ⟨store, next, later, found, ran, answered⟩ := on_store_done ws m _ _ _ done
  rw [answered] at done ⊢
  obtain rfl : table.size = k := Answer.index.inj (Except.ok.inj done)
  obtain ⟨_, _, a, b, set, first, second, _, rfl, _⟩ := Action.ends_ok _ store next later _ _
    (BlockTable.overlap_ends book table left right store (trusted m store found)) ran
  refine ⟨table, _, ⟨table.size, a.size * b.size, a.vars ++ b.vars, set⟩, a, b, tabled,
    set_table_found (ws.setStore m next) t table _ tabled, ?_, push_found table.blocks _ a left first,
    push_found table.blocks _ b right second, rfl, rfl⟩
  exact Array.getElem?_push_size

end Workspace

structure Traced (ws : Workspace) (journal : Journal) : Prop where
  extended : ∀ t k, journal.Extended t k → ∃ (m : Nat) (store : Store) (table : BlockTable) (block : Block),
    ws.stores[m]? = some store ∧ ws.tables[t]? = some table ∧ table.owner = some store.id ∧
      table.blocks[k]? = some block ∧ block ∈ journal.made m
  overlapped : ∀ t k left right, journal.Overlapped t k left right →
    ∃ (table : BlockTable) (block a b : Block), ws.tables[t]? = some table ∧ table.blocks[k]? = some block ∧
      table.blocks[left]? = some a ∧ table.blocks[right]? = some b ∧ block.vars = a.vars ++ b.vars ∧
      block.size = a.size * b.size
  origin : ∀ (t k : Nat) (table : BlockTable) (block : Block), ws.tables[t]? = some table →
    table.blocks[k]? = some block → journal.Extended t k ∨ ∃ left right, journal.Overlapped t k left right

theorem extended_standing (book : Book) (ws : Workspace) (journal : Journal) (covered : ws.Covered journal)
    (entry : Entry) (change : Change book ws entry) (traced : Traced ws journal) (t k : Nat)
    (extended : Journal.Extended t k (entry :: journal)) :
    ∃ (m : Nat) (store : Store) (table : BlockTable) (block : Block), entry.reply.workspace.stores[m]? = some store ∧
      entry.reply.workspace.tables[t]? = some table ∧ table.owner = some store.id ∧ table.blocks[k]? = some block ∧
      block ∈ Journal.made m (entry :: journal) := by
  rcases entry.mark.lays_cases t k _ extended with ⟨first, count, marked, above, below⟩ | ⟨stays, old⟩
  · obtain ⟨m, store, next, table, later, added, extension⟩ := change_extended book ws entry change t first count marked
    obtain ⟨same, sameFound, id, _⟩ := change_grows book ws entry change m store extension.found
    obtain rfl := Option.some.inj (sameFound.symm.trans extension.after)
    obtain rfl := extension.first
    have inside : k - table.size < added.length := by
      have size := extension.count
      omega
    have listed : later.blocks[k]? = some added[k - table.size] := by
      rw [extension.grown.blocks, Array.getElem?_append_right above, List.getElem?_toArray]
      exact List.getElem?_eq_getElem inside
    have owner : later.owner = some same.id := by
      rw [id]
      rcases extension.grown.owner with mine | ⟨none, _⟩
      · exact mine
      · rw [none] at inside
        exact absurd inside (Nat.not_lt_zero _)
    refine ⟨m, same, later, _, extension.after, extension.laterTabled, owner, listed, ?_⟩
    rw [Journal.made, extension.made, if_pos rfl]
    exact List.mem_append_left _ (List.getElem_mem inside)
  · obtain ⟨m, store, table, block, found, tabled, owned, listed, member⟩ := traced.extended t k old
    obtain ⟨next, after, id, _⟩ := change_grows book ws entry change m store found
    obtain ⟨later, laterTabled, laterOwned, kept⟩ :=
      change_table book ws journal covered entry change t store.id stays table tabled owned
    exact ⟨m, next, later, block, after, laterTabled, id ▸ laterOwned, kept k block listed,
      List.mem_append_right _ member⟩

theorem overlapped_standing (book : Book) (ws : Workspace) (journal : Journal) (bound : ws.Bound)
    (covered : ws.Covered journal) (trusted : ws.Trusted book) (command : Command)
    (change : Change book ws ⟨command, ws.perform command⟩) (traced : Traced ws journal) (t k left right : Nat)
    (overlapped : Journal.Overlapped t k left right (⟨command, ws.perform command⟩ :: journal)) :
    ∃ (table : BlockTable) (block a b : Block), (ws.perform command).workspace.tables[t]? = some table ∧
      table.blocks[k]? = some block ∧ table.blocks[left]? = some a ∧ table.blocks[right]? = some b ∧
      block.vars = a.vars ++ b.vars ∧ block.size = a.size * b.size := by
  rcases overlapped with ⟨m, asked, answer⟩ | ⟨stays, old⟩
  · obtain rfl : command = .overlap m t left right := asked
    obtain ⟨table, later, block, a, b, _, after, here, first, second, vars, size⟩ :=
      ws.overlap_done book trusted m t left right k answer
    exact ⟨later, block, a, b, after, here, first, second, vars, size⟩
  · obtain ⟨table, block, a, b, tabled, listed, first, second, vars, size⟩ := traced.overlapped t k left right old
    rcases bound.owners t table tabled with ⟨_, empty⟩ | ⟨id, owned, _⟩
    · exact absurd listed (table.unlisted empty k block)
    · obtain ⟨later, laterTabled, _, kept⟩ :=
        change_table book ws journal covered _ change t id stays table tabled owned
      exact ⟨later, block, a, b, laterTabled, kept k block listed, kept left a first, kept right b second, vars, size⟩

theorem block_work_origin (entry : Entry) (m t : Nat) (store next : Store) (table later : BlockTable) (mark : Mark)
    (marked : entry.mark = mark) (journal : Journal)
    (before : ∀ (k : Nat) (block : Block), table.blocks[k]? = some block →
      journal.Extended t k ∨ ∃ left right, journal.Overlapped t k left right)
    (did : BlockWork entry m t store next table later mark) (k : Nat) (block : Block)
    (listed : later.blocks[k]? = some block) : Journal.Extended t k (entry :: journal) ∨
      ∃ left right, Journal.Overlapped t k left right (entry :: journal) := by
  have kept : mark ≠ .cleared t → table.blocks[k]? = some block → Journal.Extended t k (entry :: journal) ∨
      ∃ left right, Journal.Overlapped t k left right (entry :: journal) := by
    intro stays old
    rcases before k block old with extended | ⟨left, right, overlapped⟩
    · exact .inl (entry.mark.lays_stays t k _ (marked ▸ stays) extended)
    · exact .inr ⟨left, right, .inr ⟨marked ▸ stays, overlapped⟩⟩
  cases did with
  | extend sizes rows added planned same grown _ _ =>
      rcases grown_cases table later store next added grown k block listed with ⟨_, old⟩ | ⟨above, new, _, _⟩
      · exact kept (by simp) old
      · have count : added.length = sizes.length := by
          subst same
          have lengths := congrArg List.length planned.sizes
          rwa [List.length_map, List.length_map] at lengths
        have inside := (List.getElem?_eq_some_iff.mp new).1
        refine .inl ?_
        rw [Journal.Extended, marked]
        exact .inl ⟨rfl, above, by omega⟩
  | overlap left right a b set _ _ _ blocks _ asked answer =>
      rw [blocks] at listed
      rcases Workspace.push_cases table.blocks _ block k listed with ⟨rfl, _⟩ | old
      · exact .inr ⟨left, right, .inl ⟨m, asked, answer⟩⟩
      · exact kept (by simp) old
  | teardown blocks _ _ => exact absurd listed (later.unlisted (congrArg BlockTable.blocks blocks) k block)
  | short _ blocks _ _ => exact absurd listed (later.unlisted (congrArg BlockTable.blocks blocks) k block)

theorem traced_origin (book : Book) (ws : Workspace) (journal : Journal) (entry : Entry)
    (change : Change book ws entry) (traced : Traced ws journal) (t k : Nat) (later : BlockTable) (block : Block)
    (tabled : entry.reply.workspace.tables[t]? = some later) (listed : later.blocks[k]? = some block) :
    Journal.Extended t k (entry :: journal) ∨
      ∃ left right, Journal.Overlapped t k left right (entry :: journal) := by
  rcases change_tables book ws entry change t later tabled with
    ⟨before, stays⟩ | ⟨_, rfl⟩ | ⟨m, store, next, table, _, _, old, _, did⟩
  · rcases traced.origin t k later block before listed with extended | ⟨left, right, overlapped⟩
    · exact .inl (entry.mark.lays_stays t k _ stays extended)
    · exact .inr ⟨left, right, .inr ⟨stays, overlapped⟩⟩
  · exact nomatch listed
  · exact block_work_origin entry m t store next table later _ rfl journal
      (fun i other there => traced.origin t i table other old there) did k block listed

theorem fair_traced (ws : Workspace) (journal : Journal) (fair : Fair ws journal) :
    Bred ws journal ∧ Traced ws journal := by
  induction fair with
  | start => exact ⟨⟨fun _ _ => rfl, nofun, nofun, fun _ => .nil⟩, ⟨nofun, nofun, nofun⟩⟩
  | step ws journal command fair allowed ih =>
      obtain ⟨bred, traced⟩ := ih
      obtain ⟨book, trusted, change⟩ := fair_change ws journal fair command
      have accounted := fair_accounted ws journal fair
      refine ⟨bred_change book ws journal _ bred change, ?_⟩
      constructor
      case extended => exact extended_standing book ws journal accounted.covered _ change traced
      case overlapped =>
        exact overlapped_standing book ws journal accounted.bound accounted.covered trusted command change traced
      case origin => exact traced_origin book ws journal _ change traced

structure Lineage (ws : Workspace) (journal : Journal) : Prop where
  standing : ∀ (t k : Nat) (table : BlockTable) (block : Block), ws.tables[t]? = some table →
    table.blocks[k]? = some block → block.index = k ∧ ∃ (m : Nat) (store : Store), ws.stores[m]? = some store ∧
      table.owner = some store.id ∧ block.Fits store ∧ ∃ set, store.members block.varset = .ok set ∧
        set.Pairwise (· < ·) ∧ ∀ v, v ∈ set ↔ v ∈ block.vars
  bred : Bred ws journal
  traced : Traced ws journal

theorem fair_lineage (ws : Workspace) (journal : Journal) (fair : Fair ws journal) : Lineage ws journal := by
  obtain ⟨bred, traced⟩ := fair_traced ws journal fair
  refine ⟨fun t k table block tabled listed => ?_, bred, traced⟩
  have reachable := fair_reachable ws journal fair
  obtain ⟨index, m, store, found, owned, _⟩ := Workspace.reachable_shaped ws reachable t table tabled k block listed
  have fits := (fair_accounted ws journal fair).fitted m t store table found tabled owned k block listed
  have sound := Workspace.reachable_sound ws reachable m store found
  have members := conjunction_members store sound block.varset fits.live block.vars fits.set
  exact ⟨index, m, store, found, owned, fits, Var.sorted block.vars,
    members_ok store sound block.varset fits.live _ members, Var.sorted_ascending block.vars, Var.sorted_mem block.vars⟩

-- Blocks are torn down, a new one is made, and it is overlapped with itself.
theorem rebuilt_lineage :
    ∃ (ws : Workspace) (journal : Journal), Fair ws journal ∧ Lineage ws journal ∧
      ws = Workspace.empty.run [.newStore {}, .newTable, .extend 0 0 [3, 4], .teardown 0 0, .extend 0 0 [2],
        .overlap 0 0 0 0] ∧
      (journal.made 0).map (·.vars) = [[5], [1, 3], [2, 4]] ∧
      ws.tables[0]?.map (·.blocks.toList.map (·.vars)) = some [[5], [5, 5]] := by
  have fair := fair_record .empty [] .start [.newStore {}, .newTable, .extend 0 0 [3, 4], .teardown 0 0,
    .extend 0 0 [2], .overlap 0 0 0 0] (by simp [Journal.Allows])
  exact ⟨_, _, fair, fair_lineage _ _ fair, rfl, by decide +kernel, by decide +kernel⟩

end DomainDiagram
