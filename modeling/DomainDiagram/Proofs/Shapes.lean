import DomainDiagram.Proofs.Interference
import Mathlib.Data.List.Induction

set_option autoImplicit false

namespace DomainDiagram

open Store

namespace Workspace

theorem reachable_induction (holds : Workspace → Prop) (start : holds empty)
    (step : ∀ (ws : Workspace) (command : Command), ws.Reachable → holds ws → holds (ws.perform command).workspace)
    (ws : Workspace) (reachable : ws.Reachable) : holds ws := by
  obtain ⟨commands, rfl⟩ := reachable
  -- From the last command back, so that what comes before it is a run as well.
  induction commands using List.reverseRecOn with
  | nil => exact start
  | append_singleton before last ih =>
      have apart : empty.run (before ++ [last]) = ((empty.run before).perform last).workspace := List.foldl_append ..
      rw [apart]
      exact step (empty.run before) last ⟨before, rfl⟩ ih

theorem reachable_bound (ws : Workspace) (reachable : ws.Reachable) : ws.Bound := by
  apply reachable_induction Bound ⟨nofun, nofun, nofun⟩ _ ws reachable
  intro ws command reachable bound
  obtain ⟨book, _, change⟩ := reachable_change ws reachable command
  exact bound_change book ws _ bound change

end Workspace

theorem work_grows (book : Book) (m : Nat) (store next : Store) (mark : Mark) (did : Work book m store next mark) :
    store.numVars ≤ next.numVars := by
  cases did with
  | build follows _ _ => exact follows.grown.vars
  | hold _ follows _ _ => exact follows.grown.vars
  | release _ follows _ _ => exact follows.grown.vars
  | collect _ _ _ collected => exact Nat.le_of_eq collected.vars.symm

theorem change_grows (book : Book) (ws : Workspace) (entry : Entry) (change : Change book ws entry) (m : Nat)
    (store : Store) (found : ws.stores[m]? = some store) :
    ∃ next, entry.reply.workspace.stores[m]? = some next ∧ next.id = store.id ∧ store.numVars ≤ next.numVars := by
  obtain ⟨next, after, same | did | ⟨follows, _⟩⟩ := change_at book ws entry change m store found
  · exact ⟨next, after, congrArg Store.id same, Nat.le_of_eq (congrArg Store.numVars same).symm⟩
  · exact ⟨next, after, work_id book m store next _ did, work_grows book m store next _ did⟩
  · exact ⟨next, after, follows.id, follows.grown.vars⟩

theorem work_apart (book : Book) (m : Nat) (store next : Store) (mark : Mark) (did : Work book m store next mark)
    (t : Nat) : mark ≠ .cleared t ∧ ∀ first count, mark ≠ .extended t first count := by
  cases did <;> exact ⟨nofun, nofun⟩

theorem block_work_clears (entry : Entry) (m t : Nat) (store next : Store) (table later : BlockTable) (mark : Mark)
    (did : BlockWork entry m t store next table later mark) (k : Nat) (other : k ≠ t) : mark ≠ .cleared k := by
  cases did with
  | extend _ _ _ _ _ _ => exact nofun
  | overlap _ _ _ _ _ _ _ _ _ _ => exact nofun
  | teardown _ _ => exact fun same => other (Mark.cleared.inj same).symm
  | short _ _ _ => exact nofun

theorem change_tables (book : Book) (ws : Workspace) (entry : Entry) (change : Change book ws entry) (t : Nat)
    (later : BlockTable) (tabled : entry.reply.workspace.tables[t]? = some later) :
    (ws.tables[t]? = some later ∧ entry.mark ≠ .cleared t) ∨
      (t = ws.tables.size ∧ later = .empty) ∨
      ∃ (m : Nat) (store next : Store) (table : BlockTable),
        ws.stores[m]? = some store ∧ entry.reply.workspace.stores[m]? = some next ∧
        ws.tables[t]? = some table ∧ (table.owner = none ∨ table.owner = some store.id) ∧
        BlockWork entry m t store next table later entry.mark := by
  cases change with
  | idle quiet _ tables _ => exact .inl ⟨tables ▸ tabled, by simp [quiet]⟩
  | store _ quiet _ _ tables _ => exact .inl ⟨tables ▸ tabled, by simp [quiet]⟩
  | table quiet _ tables _ =>
      rw [tables] at tabled
      rcases Workspace.push_cases ws.tables .empty later t tabled with made | before
      · exact .inr (.inl made)
      · exact .inl ⟨before, by simp [quiet]⟩
  | work m store next _ after did =>
      rw [after] at tabled
      exact .inl ⟨tabled, (work_apart book m store next _ did t).1⟩
  | blocks m k store next table final found oldTabled owned after _ _ did =>
      rw [after] at tabled ⊢
      rcases Workspace.set_table_cases (ws.setStore m next) k table final oldTabled t later tabled with
        ⟨rfl, rfl⟩ | ⟨apart, before⟩
      · exact .inr (.inr ⟨m, store, next, table, found, Workspace.set_store_found ws m store next found, oldTabled,
          owned, did⟩)
      · exact .inl ⟨before, block_work_clears _ _ k store next table final _ did t apart⟩

-- What can be told of a block whatever has become of its set.
structure Block.Shaped (block : Block) (store : Store) : Prop where
  positive : 0 < block.size
  wide : block.size ≤ 2 ^ block.width
  allocated : ∀ v ∈ block.vars, 0 < v ∧ v ≤ store.numVars

namespace Block

theorem shaped_later (block : Block) (store next : Store) (grown : store.numVars ≤ next.numVars)
    (shaped : block.Shaped store) : block.Shaped next :=
  ⟨shaped.positive, shaped.wide, fun v member =>
    ⟨(shaped.allocated v member).1, Nat.le_trans (shaped.allocated v member).2 grown⟩⟩

theorem fits_shaped (block : Block) (store : Store) (fits : block.Fits store) : block.Shaped store :=
  ⟨fits.positive, fits.wide, fits.allocated⟩

theorem shaped_overlap (a b : Block) (index : Nat) (set : Ref) (store : Store) (left : a.Shaped store)
    (right : b.Shaped store) : Shaped ⟨index, a.size * b.size, a.vars ++ b.vars, set⟩ store := by
  constructor
  case positive => exact Nat.mul_pos left.positive right.positive
  case wide =>
    rw [width, List.length_append, Nat.pow_add]
    exact Nat.mul_le_mul left.wide right.wide
  case allocated =>
    intro v member
    exact (List.mem_append.mp member).elim (left.allocated v) (right.allocated v)

end Block

def Workspace.Places (ws : Workspace) (table : BlockTable) (i : Nat) (block : Block) : Prop :=
  block.index = i ∧ ∃ (m : Nat) (store : Store), ws.stores[m]? = some store ∧ table.owner = some store.id ∧
    block.Shaped store

def Workspace.Shaped (ws : Workspace) : Prop :=
  ∀ (t : Nat) (table : BlockTable), ws.tables[t]? = some table →
    ∀ (i : Nat) (block : Block), table.blocks[i]? = some block → ws.Places table i block

theorem grown_cases (table later : BlockTable) (store next : Store) (added : List Block)
    (grown : table.Grown later store next added) (i : Nat) (block : Block) (listed : later.blocks[i]? = some block) :
    (i < table.size ∧ table.blocks[i]? = some block) ∨
      (table.size ≤ i ∧ added[i - table.size]? = some block ∧ block.index = i ∧ later.owner = some store.id) := by
  rw [grown.blocks, Array.getElem?_append] at listed
  by_cases old : i < table.blocks.size
  · rw [if_pos old] at listed
    exact .inl ⟨old, listed⟩
  · rw [if_neg old, List.getElem?_toArray] at listed
    have above : table.size ≤ i := Nat.le_of_not_lt old
    have inside : i - table.size < added.length := (List.getElem?_eq_some_iff.mp listed).1
    have index : (added.map (·.index))[i - table.size]? = some block.index := by
      rw [List.getElem?_map]
      exact congrArg (Option.map (·.index)) listed
    rw [grown.indices, List.getElem?_range' inside, Nat.one_mul, Nat.add_sub_of_le above] at index
    refine .inr ⟨above, listed, (Option.some.inj index).symm, ?_⟩
    rcases grown.owner with mine | ⟨none, _⟩
    · exact mine
    · rw [none] at inside
      exact absurd inside (Nat.not_lt_zero _)

theorem block_work_shaped (entry : Entry) (m t : Nat) (store next : Store) (table later : BlockTable) (mark : Mark)
    (standing : ∀ (i : Nat) (block : Block), table.blocks[i]? = some block →
      block.index = i ∧ table.owner = some store.id ∧ block.Shaped next)
    (did : BlockWork entry m t store next table later mark) (i : Nat) (block : Block)
    (listed : later.blocks[i]? = some block) :
    block.index = i ∧ later.owner = some store.id ∧ block.Shaped next := by
  cases did with
  | extend sizes rows added _ _ grown =>
      rcases grown_cases table later store next added grown i block listed with ⟨_, before⟩ | ⟨_, new, index, mine⟩
      · obtain ⟨index, mine, shape⟩ := standing i block before
        refine ⟨index, ?_, shape⟩
        rcases grown.owner with given | ⟨_, same⟩
        · exact given
        · exact same.trans mine
      · exact ⟨index, mine, block.fits_shaped next (grown.fits block (List.mem_of_getElem? new))⟩
  | overlap left right a b set first second _ blocks _ =>
      obtain ⟨_, mine, aShape⟩ := standing left a first
      obtain ⟨_, _, bShape⟩ := standing right b second
      rw [blocks] at listed ⊢
      rcases Workspace.push_cases table.blocks _ block i listed with ⟨rfl, rfl⟩ | before
      · exact ⟨rfl, mine, Block.shaped_overlap a b table.size set next aShape bShape⟩
      · exact standing i block before
  | teardown blocks _ => exact absurd listed (later.unlisted (congrArg BlockTable.blocks blocks) i block)
  | short _ blocks _ => exact absurd listed (later.unlisted (congrArg BlockTable.blocks blocks) i block)

theorem shaped_change (book : Book) (ws : Workspace) (entry : Entry) (bound : ws.Bound) (shaped : ws.Shaped)
    (change : Change book ws entry) : entry.reply.workspace.Shaped := by
  intro t later tabled i block listed
  rcases change_tables book ws entry change t later tabled with
    ⟨before, _⟩ | ⟨_, rfl⟩ | ⟨m, store, next, table, found, after, old, owned, did⟩
  · obtain ⟨index, m, store, found, mine, shape⟩ := shaped t later before i block listed
    obtain ⟨next, after, same, grown⟩ := change_grows book ws entry change m store found
    exact ⟨index, m, next, after, same ▸ mine, block.shaped_later store next grown shape⟩
  · exact nomatch listed
  · obtain ⟨same, sameFound, id, more⟩ := change_grows book ws entry change m store found
    obtain rfl := Option.some.inj (sameFound.symm.trans after)
    have standing : ∀ (j : Nat) (other : Block), table.blocks[j]? = some other →
        other.index = j ∧ table.owner = some store.id ∧ other.Shaped same := by
      intro j other there
      obtain ⟨index, k, home, homeFound, homeOwned, shape⟩ := shaped t table old j other there
      have mine : table.owner = some store.id := owned.resolve_left fun none => nomatch none.symm.trans homeOwned
      have place := bound.distinct k m home store homeFound found (Option.some.inj (homeOwned.symm.trans mine))
      subst place
      obtain rfl := Option.some.inj (homeFound.symm.trans found)
      exact ⟨index, mine, other.shaped_later home same more shape⟩
    obtain ⟨index, mine, shape⟩ := block_work_shaped _ _ t store same table later _ standing did i block listed
    exact ⟨index, m, same, after, id ▸ mine, shape⟩

theorem Workspace.reachable_shaped (ws : Workspace) (reachable : ws.Reachable) : ws.Shaped := by
  apply reachable_induction Workspace.Shaped nofun _ ws reachable
  intro ws command reachable shaped
  obtain ⟨book, _, change⟩ := reachable_change ws reachable command
  exact shaped_change book ws _ (reachable_bound ws reachable) shaped change

end DomainDiagram
