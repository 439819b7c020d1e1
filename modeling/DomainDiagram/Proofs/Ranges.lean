import DomainDiagram.Proofs.Dialogue
import DomainDiagram.Proofs.Image

set_option autoImplicit false

namespace DomainDiagram

open Store

namespace BlockTable

open DomainDiagram.Action

theorem plan_block_listed (table : BlockTable) (index : Nat) (store : Store) (block : Block)
    (owned : table.owner = some store.id) (listed : table.blocks[index]? = some block) :
    table.planBlock index store = .ok block := by
  have mine := check_owner_mine table store owned
  simp only [planBlock, BlockTable.block, mine, listed, bind, Except.bind]

-- The last number that a block may spell fits into its bits, so that nothing of it is dropped.
theorem legal_spells (book : Book) (table : BlockTable) (index : Nat) (block : Block) (store : Store)
    (coherent : store.Coherent book) (room : store.Spares 2) (owned : table.owner = some store.id)
    (listed : table.blocks[index]? = some block) (shaped : block.Shaped store) :
    Delivers book (table.legal index) store fun env => decide (block.code env < block.size) := by
  have planned := plan_block_listed table index store block owned listed
  have allocated : ∀ v ∈ block.bits, 0 < v ∧ v ≤ store.numVars := fun v member =>
    shaped.allocated v (List.mem_reverse.mp member)
  have held := carries_terminal book store [] 1 (Nat.le_refl 1) store (carries_refl book store coherent)
  obtain ⟨r, next, done, kept, tally, live, value⟩ := carries_delivers book _ store _ 2 room
    (at_most_ends book store block.bits allocated (block.size - 1) 1 _ store held (stands_true store))
  refine ⟨r, next, ?_, kept, tally, live, fun env => ?_⟩
  · simp only [legal, Request.afterCheck, planned, Request.perform, done]
  · have width : block.bits.length = block.width := List.length_reverse
    have positive := shaped.positive
    have last : (block.size - 1) % 2 ^ block.width = block.size - 1 := by
      apply Nat.mod_eq_of_lt
      exact Nat.lt_of_lt_of_le (Nat.sub_lt positive Nat.one_pos) shaped.wide
    rw [Bool.eq_iff_iff]
    simp only [value, width, last, Block.code, Bool.and_true, Bool.or_eq_true, decide_eq_true_eq]
    lia

end BlockTable

theorem any_range (n k : Nat) : ((List.range n).any fun j => decide (k = j)) = decide (k < n) := by
  rw [Bool.eq_iff_iff, List.any_eq_true, decide_eq_true_eq]
  simp only [decide_eq_true_eq, exists_eq_right', List.mem_range]

namespace Workspace

theorem fair_varset (ws : Workspace) (journal : Journal) (fair : Fair ws journal) (m t : Nat) (table : BlockTable)
    {spare : Nat} (engaged : ws.Engaged m t table spare) (index : Nat) (block : Block)
    (listed : table.blocks[index]? = some block) :
    ws.Means m block.varset fun env => block.vars.all env := by
  obtain ⟨store, found, owned⟩ := engaged.store
  have fits := (fair_accounted ws journal fair).fitted m t store table found engaged.tabled owned index block listed
  exact ⟨store, found, fits.live, fits.set⟩

section

variable (ws : Workspace) (m t : Nat) (table : BlockTable) {spare : Nat} (engaged : ws.Engaged m t table spare)
  (index : Nat) (block : Block) (listed : table.blocks[index]? = some block)

include engaged listed

theorem engaged_legal (enough : 2 ≤ spare) :
    ws.Supplies m (.encode m t (.legal index)) fun env => decide (block.code env < block.size) := by
  apply engaged_encodes ws m t table engaged
  intro book store found coherent room owned
  have shaped := engaged_shaped ws m t table engaged index block listed store found
  have two := store.spares_fewer spare 2 enough room
  exact BlockTable.legal_spells book table index block store coherent two owned listed shaped

theorem engaged_sum (enough : 1 ≤ spare) (r : Ref)
    (means : ws.Means m r fun env => decide (block.code env < block.size)) :
    ∃ fs last, fs.length = block.size ∧
      ws.Serves (((List.range block.size).map fun n => .encode m t (.value index n)).zip fs ++
        [(.construct m (.disjunction fs), r)]) last := by
  have single : ∀ n ∈ List.range block.size, ∀ ws : Workspace, ws.Engaged m t table spare →
      ws.Supplies m (.encode m t (.value index n)) fun env => decide (block.code env = n) :=
    fun n member ws engaged => ws.engaged_value m t table engaged enough index n block listed (List.mem_range.mp member)
  obtain ⟨fs, middle, spelt, onward, kept, meanings⟩ := serves_each m t table spare _ _ _ single ws engaged
  have present := engaged_present middle m t table kept
  have joins := middle.supplies_disjunction kept.reachable m present _ _ fs meanings
  have known := means_congr middle m r _ _ (fun env => (any_range block.size (block.code env)).symm)
    (onward.means r _ means)
  obtain ⟨last, joined⟩ := engaged_known middle m t table kept _ _ joins r known
  refine ⟨fs, last, ?_, serves_append ws middle last _ _ spelt joined⟩
  rw [← meanings.length_eq, List.length_range]

theorem engaged_counts (set : ws.Means m block.varset fun env => block.vars.all env) (once : block.vars.Nodup)
    (targets : List Nat) (distinct : targets.Nodup) (small : ∀ n ∈ targets, n < 2 ^ block.width) (f : Ref)
    (means : ws.Means m f fun env => targets.any fun n => decide (block.code env = n)) :
    (ws.look (.ask m (.modelsOver f block.varset))).1 = .fact (.ok (.amount targets.length)) := by
  obtain ⟨store, found, live, value⟩ := means
  obtain ⟨setLive, setValue⟩ := means_stands ws m store found block.varset _ set
  have sound := reachable_sound ws engaged.reachable m store found
  have shaped := engaged_shaped ws m t table engaged index block listed store found
  have fits : block.Fits store := ⟨shaped.positive, shaped.wide, shaped.allocated, setLive, setValue⟩
  exact models_over_told ws m f block.varset store targets.length found
    (block.count_codes store sound fits once targets distinct small f live value)

end

end Workspace

structure Ranged (ws : Workspace) (m t index : Nat) (block : Block) (r : Ref) : Prop where
  means : ws.Means m r fun env => decide (block.code env < block.size)
  full : block.size = 2 ^ block.width → r = 1
  values : ∃ fs last, fs.length = block.size ∧
    ws.Serves (((List.range block.size).map fun n => .encode m t (.value index n)).zip fs ++
      [(.construct m (.disjunction fs), r)]) last
  count : block.vars.Nodup →
    (ws.look (.ask m (.modelsOver r block.varset))).1 = .fact (.ok (.amount block.size))

theorem legal_ranged (ws : Workspace) (journal : Journal) (fair : Fair ws journal) (m t : Nat) (store : Store)
    (table : BlockTable) (found : ws.stores[m]? = some store) (room : store.Roomy)
    (tabled : ws.tables[t]? = some table) (owned : table.owner = some store.id) (index : Nat) (block : Block)
    (listed : table.blocks[index]? = some block) :
    ∃ r later, ws.Serves [(.encode m t (.legal index), r)] later ∧ Ranged later m t index block r := by
  have engaged := ws.engaged_found (fair_reachable ws journal fair) m t store table found 3 room tabled owned
  have supplies := ws.engaged_legal m t table engaged index block listed (by decide)
  obtain ⟨r, later, answer, onward, still, means⟩ := ws.engaged_serves m t table engaged _ _ supplies
  refine ⟨r, later, answer, means, fun full => ?_, ?_, fun once => ?_⟩
  · exact later.means_one still.reachable m r _ means fun env => decide_eq_true (full ▸ block.code_lt env)
  · exact later.engaged_sum m t table still index block listed (by decide) r means
  · have set := onward.means _ _ (ws.fair_varset journal fair m t table engaged index block listed)
    have small : ∀ n ∈ List.range block.size, n < 2 ^ block.width := by
      intro n member
      obtain ⟨store, found⟩ := later.engaged_present m t table still
      have wide := (later.engaged_shaped m t table still index block listed store found).wide
      exact Nat.lt_of_lt_of_le (List.mem_range.mp member) wide
    have counted := later.engaged_counts m t table still index block listed set once _ List.nodup_range small r
      (later.means_congr m r _ _ (fun env => (any_range block.size (block.code env)).symm) means)
    rwa [List.length_range] at counted

-- The higher of two blocks leads, so that the variables do not ascend, and 4 of the 16 codes are not legal.
theorem overlapped_ranged : ∃ (ws : Workspace) (journal : Journal) (store : Store) (table : BlockTable) (block : Block),
    ws = Workspace.empty.run [.newStore {}, .newTable, .extend 0 0 [3, 4], .overlap 0 0 1 0] ∧ Fair ws journal ∧
      ws.stores[0]? = some store ∧ store.Roomy ∧ ws.tables[0]? = some table ∧ table.owner = some store.id ∧
      table.blocks[2]? = some block ∧ block.vars = [2, 4, 1, 3] ∧ block.size = 12 ∧
      ∃ r later, ws.Serves [(.encode 0 0 (.legal 2), r)] later ∧ Ranged later 0 0 2 block r := by
  obtain ⟨ws, built⟩ : ∃ ws, ws = Workspace.empty.run
    [.newStore {}, .newTable, .extend 0 0 [3, 4], .overlap 0 0 1 0] := ⟨_, rfl⟩
  obtain ⟨journal, fair⟩ := fair_run .empty [] .start [.newStore {}, .newTable, .extend 0 0 [3, 4], .overlap 0 0 1 0]
    (by simp [Journal.Allows])
  rw [← built] at fair
  obtain ⟨store, table, found, room, tabled, owned, placed⟩ := ws.laid_out 0 0 1
    [([1, 3], 3), ([2, 4], 4), ([2, 4, 1, 3], 12)] (by rw [built]; decide +kernel) (by rw [built]; decide +kernel)
  obtain ⟨block, listed, vars, size⟩ := placed 2 _ _ rfl
  exact ⟨ws, journal, store, table, block, built, fair, found, room, tabled, owned, listed, vars, size,
    legal_ranged ws journal fair 0 0 store table found room tabled owned 2 block listed⟩

end DomainDiagram
