import DomainDiagram.Proofs.Accounts

set_option autoImplicit false

namespace DomainDiagram

open Store

namespace Store

theorem tally_held (store : Store) (f : Ref) (live : store.Live f) (large : 2 ≤ f) (counted : 0 < store.tally f) :
    store.Held f := by
  have inUse := live.resolve_left (Nat.not_le_of_lt large)
  cases found : store.counts[f]? with
  | none =>
      rw [tally, found] at counted
      exact absurd counted (Nat.lt_irrefl 0)
  | some count =>
      rw [tally, found] at counted
      exact ⟨inUse, count, found, counted⟩

theorem collected_held (old new : Store) (freed : Nat) (collected : old.Collected new freed) (f : Ref)
    (kept : f ≤ 1 ∨ old.Held f) : new.Live f ∧ ∀ env, new.eval f env = old.eval f env := by
  have live : new.Live f := by
    refine kept.imp_right fun held => ?_
    obtain ⟨node, tests⟩ := held.1
    exact ⟨node, (collected.live f node).mpr ⟨tests, f, held, .here f⟩⟩
  exact ⟨live, collected.eval f live⟩

end Store

namespace Block

theorem fits_collected (block : Block) (old new : Store) (freed : Nat) (collected : old.Collected new freed)
    (fits : block.Fits old) (kept : block.varset ≤ 1 ∨ old.Held block.varset) : block.Fits new := by
  obtain ⟨live, same⟩ := collected_held old new freed collected block.varset kept
  refine ⟨fits.positive, fits.wide, fun v member => ?_, live, fun env => ?_⟩
  · rw [collected.vars]
    exact fits.allocated v member
  · rw [same, fits.set]

theorem fits_overlap (a b : Block) (index : Nat) (set : Ref) (store : Store) (sound : store.Sound) (left : a.Fits store)
    (right : b.Fits store) (joined : store.Combines .and a.varset b.varset set) :
    Fits ⟨index, a.size * b.size, a.vars ++ b.vars, set⟩ store := by
  constructor
  case positive => exact Nat.mul_pos left.positive right.positive
  case wide =>
    rw [width, List.length_append, Nat.pow_add]
    exact Nat.mul_le_mul left.wide right.wide
  case allocated =>
    intro v member
    exact (List.mem_append.mp member).elim (left.allocated v) (right.allocated v)
  case live =>
    refine below_live store 0 set (combines_below store sound .and 0 a.varset b.varset set ?_ ?_ joined)
    · exact live_below store sound a.varset left.live
    · exact live_below store sound b.varset right.live
  case set =>
    intro env
    rw [combines_eval store sound .and a.varset b.varset set joined, left.set, right.set, List.all_append]
    rfl

end Block

def Workspace.Fitted (ws : Workspace) : Prop :=
  ∀ (m t : Nat) (store : Store) (table : BlockTable), ws.stores[m]? = some store → ws.tables[t]? = some table →
    table.owner = some store.id → ∀ (i : Nat) (block : Block), table.blocks[i]? = some block → block.Fits store

-- The set of a block is held by its table, and so outlives collections.
theorem block_kept (ws : Workspace) (journal : Journal) (covered : ws.Covered journal) (m t : Nat) (store : Store)
    (table : BlockTable) (found : ws.stores[m]? = some store) (tabled : ws.tables[t]? = some table)
    (owned : table.owner = some store.id) (i : Nat) (block : Block) (listed : table.blocks[i]? = some block)
    (live : store.Live block.varset) : block.varset ≤ 1 ∨ store.Held block.varset := by
  rcases Ref.terminal_or block.varset with small | large
  · exact .inl small
  · have member : block ∈ table.blocks.toList :=
      List.mem_iff_getElem?.mpr ⟨i, Array.getElem?_toList.trans listed⟩
    have used := Block.uses_mem _ block member large
    have part := Workspace.covered_table ws journal covered m t store table found tabled block.varset large
    rw [table.uses_owned store.id block.varset owned] at part
    exact .inr (tally_held store block.varset live large (Nat.lt_of_lt_of_le used part))

theorem fitted_work (book : Book) (ws : Workspace) (journal : Journal) (covered : ws.Covered journal)
    (trusted : ws.Trusted book) (fitted : ws.Fitted) (m : Nat) (store next : Store) (mark : Mark)
    (found : ws.stores[m]? = some store) (did : Work book m store next mark) : (ws.setStore m next).Fitted := by
  have sound := (trusted m store found).sound
  intro k t other table later tabled owned i block listed
  rcases Workspace.set_store_cases ws m store next found k other later with ⟨rfl, rfl⟩ | ⟨_, before⟩
  · rw [work_id book k store other mark did] at owned
    have fits := fitted k t store table found tabled owned i block listed
    cases did with
    | build follows coherent _ => exact block.fits_follows store other sound coherent.sound follows fits
    | hold _ follows coherent _ => exact block.fits_follows store other sound coherent.sound follows fits
    | release _ follows coherent _ => exact block.fits_follows store other sound coherent.sound follows fits
    | collect freed _ _ collected =>
        exact block.fits_collected store other freed collected fits
          (block_kept ws journal covered k t store table found tabled owned i block listed fits.live)
  · exact fitted k t other table before tabled owned i block listed

theorem block_work_fits (entry : Entry) (m t : Nat) (store next : Store) (nextSound : next.Sound)
    (table later : BlockTable) (mark : Mark)
    (owned : (table.owner = none ∧ table.blocks = #[]) ∨ table.owner = some store.id)
    (fits : table.owner = some store.id → ∀ (i : Nat) (block : Block), table.blocks[i]? = some block → block.Fits next)
    (did : BlockWork entry m t store next table later mark) (i : Nat) (block : Block)
    (listed : later.blocks[i]? = some block) :
    block.Fits next := by
  have old : ∀ (i : Nat) (block : Block), table.blocks[i]? = some block → block.Fits next := by
    intro i block found
    rcases owned with ⟨_, empty⟩ | mine
    · exact absurd found (table.unlisted empty i block)
    · exact fits mine i block found
  cases did with
  | extend sizes rows added planned same grown =>
      rw [grown.blocks, Array.getElem?_append] at listed
      split at listed
      · exact old i block listed
      · refine grown.fits block ?_
        rw [List.getElem?_toArray] at listed
        exact List.mem_of_getElem? listed
  | overlap left right a b set first second joined blocks _ =>
      rw [blocks] at listed
      rcases Workspace.push_cases table.blocks _ block i listed with ⟨_, rfl⟩ | before
      · exact Block.fits_overlap a b table.size set next nextSound (old left a first) (old right b second) joined
      · exact old i block before
  | teardown blocks _ => exact absurd listed (later.unlisted (congrArg BlockTable.blocks blocks) i block)
  | short f blocks _ => exact absurd listed (later.unlisted (congrArg BlockTable.blocks blocks) i block)

theorem fitted_blocks (book : Book) (ws : Workspace) (entry : Entry) (bound : ws.Bound) (trusted : ws.Trusted book)
    (fitted : ws.Fitted) (m t : Nat) (store next : Store) (table final : BlockTable) (mark : Mark)
    (found : ws.stores[m]? = some store) (tabled : ws.tables[t]? = some table)
    (owned : table.owner = none ∨ table.owner = some store.id) (follows : Follows store next)
    (coherent : next.Coherent book) (did : BlockWork entry m t store next table final mark) :
    ((ws.setStore m next).setTable t final).Fitted := by
  have sound := (trusted m store found).sound
  have mine := Workspace.bound_owned ws bound t store.id table tabled owned
  have kept : ∀ (k : Nat) (other : BlockTable), ws.tables[k]? = some other → other.owner = some store.id →
      ∀ (i : Nat) (block : Block), other.blocks[i]? = some block → block.Fits next :=
    fun k other there belongs i block listed => block.fits_follows store next sound coherent.sound follows
      (fitted m k store other found there belongs i block listed)
  intro k u other last later lastTabled belongs i block listed
  rcases Workspace.set_table_cases (ws.setStore m next) t table final tabled u last lastTabled with
    ⟨_, rfl⟩ | ⟨_, before⟩
  · have same : k = m := by
      rcases Workspace.set_store_cases ws m store next found k other later with ⟨same, _⟩ | ⟨_, old⟩
      · exact same
      · rcases block_work_owner _ _ t store next table last mark mine did with ⟨none, _⟩ | owner
        · exact nomatch none.symm.trans belongs
        · exact bound.distinct k m other store old found (Option.some.inj (belongs.symm.trans owner))
    subst same
    obtain rfl := Option.some.inj (later.symm.trans (Workspace.set_store_found ws k store next found))
    exact block_work_fits _ _ t store other coherent.sound table last mark mine (kept t table tabled) did i block listed
  · rcases Workspace.set_store_cases ws m store next found k other later with ⟨_, rfl⟩ | ⟨_, old⟩
    · rw [follows.id] at belongs
      exact kept u last before belongs i block listed
    · exact fitted k u other last old before belongs i block listed

theorem fitted_change (book : Book) (ws : Workspace) (journal : Journal) (entry : Entry) (bound : ws.Bound)
    (covered : ws.Covered journal) (trusted : ws.Trusted book) (fitted : ws.Fitted)
    (change : Change book ws entry) : entry.reply.workspace.Fitted := by
  cases change with
  | idle _ stores tables _ =>
      intro m t store table found tabled
      exact fitted m t store table (stores ▸ found) (tables ▸ tabled)
  | store fresh _ first stores tables _ =>
      intro m t store table found tabled owned
      rw [tables] at tabled
      rcases Workspace.push_cases ws.stores fresh store m (stores ▸ found) with ⟨_, rfl⟩ | before
      · rcases bound.owners t table tabled with ⟨none, _⟩ | ⟨id, owner, less⟩
        · exact nomatch none.symm.trans owned
        · have same := Option.some.inj (owned.symm.trans owner)
          exact absurd less (by lia)
      · exact fitted m t store table before tabled owned
  | table _ stores tables _ =>
      intro m t store table found tabled owned
      rcases Workspace.push_cases ws.tables .empty table t (tables ▸ tabled) with ⟨_, rfl⟩ | before
      · exact nomatch owned
      · exact fitted m t store table (stores ▸ found) before owned
  | work m store next found after did =>
      rw [after]
      exact fitted_work book ws journal covered trusted fitted m store next _ found did
  | blocks m t store next table final found tabled owned after follows coherent did =>
      rw [after]
      exact fitted_blocks book ws entry bound trusted fitted m t store next table final _ found tabled owned follows
        coherent did

-- The blocks that extensions have made are in their places, and no two of
-- them share a variable.
structure BlockTable.Laid (table : BlockTable) (made : Nat → Prop) : Prop where
  standing : ∀ i, made i → ∃ block, table.blocks[i]? = some block ∧ block.vars.Pairwise (· < ·) ∧
    block.width = bitWidth block.size
  apart : ∀ (i j : Nat) (a b : Block), made i → made j → i ≠ j → table.blocks[i]? = some a →
    table.blocks[j]? = some b → a.vars.Disjoint b.vars

structure Workspace.Laid (ws : Workspace) (journal : Journal) : Prop where
  absent : ∀ (t i : Nat), ws.tables[t]? = none → ¬ journal.Extended t i
  laid : ∀ (t : Nat) (table : BlockTable), ws.tables[t]? = some table → table.Laid fun i => journal.Extended t i

namespace BlockTable

theorem laid_same (table : BlockTable) (made other : Nat → Prop) (same : ∀ i, other i ↔ made i)
    (laid : table.Laid made) : table.Laid other :=
  ⟨fun i here => laid.standing i ((same i).mp here), fun i j a b left right =>
    laid.apart i j a b ((same i).mp left) ((same j).mp right)⟩

theorem laid_none (table : BlockTable) (made : Nat → Prop) (none : ∀ i, ¬ made i) : table.Laid made :=
  ⟨fun i here => absurd here (none i), fun i _ _ _ left => absurd left (none i)⟩

theorem planned_apart (store : Store) (sizes : List Nat) (added : List Block)
    (planned : Planned store sizes (added.map fun block => (block.size, block.vars))) (i j : Nat) (a b : Block)
    (different : i ≠ j) (left : added[i]? = some a) (right : added[j]? = some b) : a.vars.Disjoint b.vars := by
  have pairs := List.pairwise_map.mp planned.apart
  obtain ⟨inside, rfl⟩ := List.getElem?_eq_some_iff.mp left
  obtain ⟨alsoInside, rfl⟩ := List.getElem?_eq_some_iff.mp right
  rcases Nat.lt_or_gt_of_ne different with less | greater
  · exact List.pairwise_iff_getElem.mp pairs i j inside alsoInside less
  · exact List.disjoint_symm (List.pairwise_iff_getElem.mp pairs j i alsoInside inside greater)

theorem laid_extend (table later : BlockTable) (store : Store) (sizes : List Nat) (added : List Block)
    (made : Nat → Prop) (laid : table.Laid made)
    (planned : Planned store sizes (added.map fun block => (block.size, block.vars)))
    (blocks : later.blocks = table.blocks ++ added.toArray)
    (old : ∀ (i : Nat) (block : Block), table.blocks[i]? = some block → ∀ v ∈ block.vars, v ≤ store.numVars) :
    later.Laid fun i => (table.size ≤ i ∧ i < table.size + sizes.length) ∨ made i := by
  have count : added.length = sizes.length := by
    have listed := congrArg List.length planned.sizes
    rwa [List.length_map, List.length_map] at listed
  have early : ∀ i, i < table.size → later.blocks[i]? = table.blocks[i]? := by
    intro i less
    rw [blocks]
    exact Array.getElem?_append_left less
  have late : ∀ i, table.size ≤ i → later.blocks[i]? = added[i - table.size]? := by
    intro i above
    rw [blocks, Array.getElem?_append_right above, List.getElem?_toArray]
    rfl
  have listed : ∀ block ∈ added, (block.size, block.vars) ∈ added.map fun block => (block.size, block.vars) :=
    fun block member => List.mem_map_of_mem member
  have fresh : ∀ i j a b, i < table.size → table.size ≤ j → later.blocks[i]? = some a → later.blocks[j]? = some b →
      a.vars.Disjoint b.vars := by
    intro i j a b less above left right v here there
    rw [early i less] at left
    rw [late j above] at right
    have new := planned.fresh _ (listed b (List.mem_of_getElem? right)) v there
    exact absurd new.1 (Nat.not_lt_of_le (old i a left v here))
  constructor
  case standing =>
    rintro i (⟨above, below⟩ | before)
    · have inside : i - table.size < added.length := by lia
      refine ⟨added[i - table.size], (late i above).trans (List.getElem?_eq_getElem inside), ?_, ?_⟩
      · exact planned.ascending _ (listed _ (List.getElem_mem inside))
      · exact planned.width _ (listed _ (List.getElem_mem inside))
    · obtain ⟨block, found, known⟩ := laid.standing i before
      have less : i < table.size := (Array.getElem?_eq_some_iff.mp found).1
      exact ⟨block, (early i less).trans found, known⟩
  case apart =>
    intro i j a b left right different first second
    rcases Nat.lt_or_ge i table.size with iOld | iNew <;> rcases Nat.lt_or_ge j table.size with jOld | jNew
    · have iMade := left.resolve_left fun range => absurd iOld (Nat.not_lt_of_le range.1)
      have jMade := right.resolve_left fun range => absurd jOld (Nat.not_lt_of_le range.1)
      exact laid.apart i j a b iMade jMade different ((early i iOld).symm.trans first)
        ((early j jOld).symm.trans second)
    · exact fresh i j a b iOld jNew first second
    · exact List.disjoint_symm (fresh j i b a jOld iNew second first)
    · rw [late i iNew] at first
      rw [late j jNew] at second
      exact planned_apart store sizes added planned _ _ a b (by lia) first second

theorem laid_push (table : BlockTable) (block : Block) (made : Nat → Prop) (laid : table.Laid made) :
    Laid { table with blocks := table.blocks.push block } made := by
  have early : ∀ i, made i → (table.blocks.push block)[i]? = table.blocks[i]? := by
    intro i here
    obtain ⟨old, found, _⟩ := laid.standing i here
    rw [Workspace.push_found table.blocks block old i found, found]
  refine ⟨fun i here => ?_, fun i j a b left right different first second => ?_⟩
  · obtain ⟨old, found, known⟩ := laid.standing i here
    exact ⟨old, (early i here).trans found, known⟩
  · exact laid.apart i j a b left right different ((early i left).symm.trans first) ((early j right).symm.trans second)

end BlockTable

theorem work_lays (book : Book) (m : Nat) (store next : Store) (mark : Mark) (did : Work book m store next mark)
    (t i : Nat) (before : Prop) : mark.lays t i before = before := by
  cases did <;> rfl

theorem block_work_lays (entry : Entry) (m t : Nat) (store next : Store) (table later : BlockTable) (mark : Mark)
    (did : BlockWork entry m t store next table later mark) (k : Nat) (other : k ≠ t) (i : Nat) (before : Prop) :
    mark.lays k i before ↔ before := by
  cases did with
  | extend _ _ _ _ _ _ => exact or_iff_right fun made => other made.1.symm
  | overlap _ _ _ _ _ _ _ _ _ _ => exact Iff.rfl
  | teardown _ _ => exact and_iff_right (Ne.symm other)
  | short _ _ _ => exact Iff.rfl

theorem block_work_laid (entry : Entry) (m t : Nat) (store next : Store) (table later : BlockTable) (mark : Mark)
    (made : Nat → Prop) (laid : table.Laid made) (covered : ∀ f, Block.uses table.blocks.toList f ≤ store.tally f)
    (old : ∀ (i : Nat) (block : Block), table.blocks[i]? = some block → ∀ v ∈ block.vars, v ≤ store.numVars)
    (did : BlockWork entry m t store next table later mark) : later.Laid fun i => mark.lays t i (made i) := by
  cases did with
  | extend sizes rows added planned same grown =>
      subst same
      refine BlockTable.laid_same later _ _ (fun i => ?_)
        (BlockTable.laid_extend table later store sizes added made laid planned grown.blocks old)
      exact or_congr_left (and_iff_right rfl)
  | overlap left right a b set first second _ blocks _ => exact blocks ▸ BlockTable.laid_push table _ made laid
  | teardown blocks _ => exact BlockTable.laid_none later _ fun i here => here.1 rfl
  | short f _ lacking => exact absurd lacking (Nat.not_lt_of_le (covered f))

theorem laid_blocks (ws : Workspace) (journal : Journal) (entry : Entry) (bound : ws.Bound)
    (covered : ws.Covered journal) (fitted : ws.Fitted) (laid : ws.Laid journal) (m t : Nat) (store next : Store)
    (table final : BlockTable) (found : ws.stores[m]? = some store) (tabled : ws.tables[t]? = some table)
    (owned : table.owner = none ∨ table.owner = some store.id)
    (did : BlockWork entry m t store next table final entry.mark) :
    ((ws.setStore m next).setTable t final).Laid (entry :: journal) := by
  have mine := Workspace.bound_owned ws bound t store.id table tabled owned
  refine ⟨fun k i gone => ?_, fun k other later => ?_⟩
  · have apart : k ≠ t := by
      rintro rfl
      exact nomatch (Workspace.set_table_found (ws.setStore m next) k table final tabled).symm.trans gone
    have before : ws.tables[k]? = none := (Array.getElem?_setIfInBounds_ne (Ne.symm apart)).symm.trans gone
    rw [Journal.Extended, block_work_lays _ _ t store next table final _ did k apart]
    exact laid.absent k i before
  · rcases Workspace.set_table_cases (ws.setStore m next) t table final tabled k other later with
      ⟨rfl, rfl⟩ | ⟨apart, before⟩
    · refine block_work_laid _ _ k store next table other _ _ (laid.laid k table tabled) ?_ ?_ did
      · exact uses_covered store.id table store mine
          (Workspace.covered_table ws journal covered m k store table found tabled)
      · intro i block listed v member
        rcases mine with ⟨_, empty⟩ | belongs
        · exact absurd listed (table.unlisted empty i block)
        · exact ((fitted m k store table found tabled belongs i block listed).allocated v member).2
    · refine BlockTable.laid_same other _ _ (fun i => ?_) (laid.laid k other before)
      exact block_work_lays _ _ t store next table final _ did k apart i _

theorem laid_tables (ws later : Workspace) (journal : Journal) (entry : Entry) (laid : ws.Laid journal)
    (tables : later.tables = ws.tables) (same : ∀ t i, Journal.Extended t i (entry :: journal) ↔ journal.Extended t i) :
    later.Laid (entry :: journal) := by
  refine ⟨fun t i gone => ?_, fun t table tabled => ?_⟩
  · rw [same]
    exact laid.absent t i (tables ▸ gone)
  · exact BlockTable.laid_same table _ _ (same t) (laid.laid t table (tables ▸ tabled))

theorem laid_change (book : Book) (ws : Workspace) (journal : Journal) (entry : Entry) (bound : ws.Bound)
    (covered : ws.Covered journal) (fitted : ws.Fitted) (laid : ws.Laid journal) (change : Change book ws entry) :
    entry.reply.workspace.Laid (entry :: journal) := by
  cases change with
  | idle quiet _ tables _ => exact laid_tables ws _ journal entry laid tables (journal.extended_quiet entry quiet)
  | store _ quiet _ _ tables _ => exact laid_tables ws _ journal entry laid tables (journal.extended_quiet entry quiet)
  | table quiet _ tables _ =>
      have same := journal.extended_quiet entry quiet
      refine ⟨fun t i gone => ?_, fun t table tabled => ?_⟩
      · rw [tables, Array.getElem?_eq_none_iff, Array.size_push] at gone
        rw [same]
        exact laid.absent t i (Array.getElem?_eq_none_iff.mpr (Nat.le_of_succ_le gone))
      · rw [tables] at tabled
        rcases Workspace.push_cases ws.tables .empty table t tabled with ⟨rfl, rfl⟩ | before
        · refine BlockTable.laid_none _ _ fun i here => ?_
          exact laid.absent _ i (Array.getElem?_eq_none_iff.mpr (Nat.le_refl _)) ((same _ i).mp here)
        · exact BlockTable.laid_same table _ _ (same t) (laid.laid t table before)
  | work m store next _ after did =>
      refine laid_tables ws _ journal entry laid (after ▸ rfl) fun t i => ?_
      rw [Journal.Extended, work_lays book m store next _ did]
  | blocks m t store next table final found tabled owned after _ _ did =>
      rw [after]
      exact laid_blocks ws journal entry bound covered fitted laid m t store next table final found tabled owned did

structure Accounted (ws : Workspace) (journal : Journal) : Prop where
  bound : ws.Bound
  covered : ws.Covered journal
  fitted : ws.Fitted
  laid : ws.Laid journal

theorem fair_change (ws : Workspace) (journal : Journal) (fair : Fair ws journal) (command : Command) :
    ∃ book, ws.Trusted book ∧ Change book ws ⟨command, ws.perform command⟩ :=
  Workspace.reachable_change ws (fair_reachable ws journal fair) command

theorem fair_accounted (ws : Workspace) (journal : Journal) (fair : Fair ws journal) : Accounted ws journal := by
  -- The four go together: blocks last because counts cover them, and counts
  -- cover them because every table is bound to the store that it draws on.
  induction fair with
  | start =>
      refine ⟨⟨nofun, nofun, nofun⟩, ⟨fun _ _ _ => rfl, nofun⟩, nofun, ⟨fun _ _ _ => nofun, nofun⟩⟩
  | step ws journal command fair allowed ih =>
      obtain ⟨book, trusted, change⟩ := fair_change ws journal fair command
      exact ⟨bound_change book ws _ ih.bound change,
        covered_change book ws journal _ ih.bound ih.covered allowed change,
        fitted_change book ws journal _ ih.bound ih.covered trusted ih.fitted change,
        laid_change book ws journal _ ih.bound ih.covered ih.fitted ih.laid change⟩

end DomainDiagram
