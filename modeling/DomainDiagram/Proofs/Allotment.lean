import DomainDiagram.Proofs.Dealing
import DomainDiagram.Proofs.Undisturbed

set_option autoImplicit false

namespace DomainDiagram

namespace Store

-- Nothing is held that is the set of the variables.
def Unclaimed (store : Store) (vars : List Var) : Prop :=
  ∀ f, store.Live f → (∀ env, store.eval f env = vars.all env) → store.tally f = 0

theorem unclaimed_fresh (store : Store) (sound : store.Sound) (n : Nat) (vars : List Var) (v : Var)
    (member : v ∈ vars) (fresh : store.numVars < v) : (store.grow n).Unclaimed vars := by
  intro f live value
  have old : store.Live f := live
  have same := eval_extends store (store.grow n) sound (grow_sound store sound n) (grow_follows store n).grown f old
  have blind : store.eval f (fun _ => true) = store.eval f (fun w => decide (w ≤ store.numVars)) := by
    exact eval_allocated store sound f old _ _ fun w _ below => (decide_eq_true below).symm
  rw [← same, ← same, value, value] at blind
  have all : vars.all (fun _ => true) = true := List.all_eq_true.mpr fun _ _ => rfl
  rw [all, eq_comm, List.all_eq_true] at blind
  exact absurd (of_decide_eq_true (blind v member)) (Nat.not_le_of_lt fresh)

theorem unclaimed_made (store next : Store) (sound : store.Sound) (newSound : next.Sound) (follows : Follows store next)
    (block : Block) (fits : block.Fits next) (tally : ∀ f, next.tally f = store.tally f + block.varset.once f)
    (vars : List Var) (some : vars ≠ []) (apart : block.vars.Disjoint vars) (free : store.Unclaimed vars) :
    next.Unclaimed vars := by
  intro f live value
  have other : f ≠ block.varset := by
    rintro rfl
    obtain ⟨v, member⟩ := List.exists_mem_of_ne_nil vars some
    have same : block.vars.all (fun w => decide (w ∈ block.vars)) = vars.all fun w => decide (w ∈ block.vars) :=
      (fits.set _).symm.trans (value _)
    have all : block.vars.all (fun w => decide (w ∈ block.vars)) = true :=
      List.all_eq_true.mpr fun w there => decide_eq_true there
    rw [all, eq_comm, List.all_eq_true] at same
    exact apart (of_decide_eq_true (same v member)) member
  have none : store.tally f = 0 := by
    by_cases old : store.Live f
    · refine free f old fun env => ?_
      rw [← eval_extends store next sound newSound follows.grown f old, value]
    · exact tally_vacant store sound f old
  rw [tally, none, Ref.once, if_neg fun both => other both.2]

end Store

namespace BlockTable

open Store DomainDiagram.Action

theorem make_block_done (book : Book) (index size : Nat) (vars : List Var) (store : Store)
    (coherent : store.Coherent book) (allocated : ∀ v ∈ vars, 0 < v ∧ v ≤ store.numVars)
    (free : store.Unclaimed vars) :
    Ends (makeBlock index size vars) store (fun _ next => next.numVars = store.numVars) fun _ _ => False := by
  obtain ⟨set, middle, made, advanced, live, value⟩ := gives_cube book store coherent vars allocated
  have none : middle.tally set = 0 := by
    rw [tally_built store middle advanced.built]
    by_cases old : store.Live set
    · refine free set old fun env => ?_
      have extended := builds_extends store middle advanced.built
      rw [← eval_extends store middle coherent.sound advanced.coherent.sound extended set old, value]
    · exact tally_vacant store coherent.sound set old
  refine ends_then _ _ store middle set _ _ made ?_
  have held := ends_and _ middle _ _ _ _ (hold_recounts middle set)
    (hold_breaks middle advanced.coherent.sound set live)
  refine ends_bind _ _ middle _ _ _ (ends_mono _ middle _ _ _ _ held (fun _ _ known => known) ?_) ?_
  · rintro _ next ⟨_, _, full⟩
    rw [none] at full
    exact absurd full (by decide)
  · rintro _ next ⟨⟨_, counts, rfl⟩, _⟩
    exact advanced.built.vars

theorem make_blocks_done (book : Book) (rows : List (Nat × List Var)) (first : Nat) (store : Store)
    (coherent : store.Coherent book) (each : ∀ row ∈ rows, 0 < row.1 ∧ row.1 ≤ 2 ^ row.2.length ∧
      ∀ v ∈ row.2, 0 < v ∧ v ≤ store.numVars) (some : ∀ row ∈ rows, row.2 ≠ [])
    (apart : rows.Pairwise fun a b => a.2.Disjoint b.2) (free : ∀ row ∈ rows, store.Unclaimed row.2) :
    Ends ((rows.zipIdx first).mapM fun ((size, vars), index) => makeBlock index size vars) store
      (fun _ next => next.numVars = store.numVars) fun _ _ => False := by
  induction rows generalizing first store with
  | nil => exact rfl
  | cons row rest ih =>
      obtain ⟨size, vars⟩ := row
      obtain ⟨positive, wide, allocated⟩ := each (size, vars) List.mem_cons_self
      obtain ⟨others, restApart⟩ := List.pairwise_cons.mp apart
      obtain ⟨unclaimed, restFree⟩ := List.forall_mem_cons.mp free
      rw [List.zipIdx_cons, List.mapM_cons]
      have made := ends_and _ store _ _ _ _
        (make_block_ends book first size vars store coherent positive wide allocated)
        (make_block_done book first size vars store coherent allocated unclaimed)
      refine ends_bind _ _ store _ _ _
        (ends_mono _ store _ _ _ _ made (fun _ _ known => known) fun _ _ known => known.2) ?_
      rintro block middle ⟨⟨⟨follows, middleCoherent⟩, same, fits, tally⟩, grown⟩
      obtain rfl : block.vars = vars := (Prod.mk.inj (Prod.mk.inj same).1).2
      have later : ∀ row ∈ rest, 0 < row.1 ∧ row.1 ≤ 2 ^ row.2.length ∧ ∀ v ∈ row.2, 0 < v ∧ v ≤ middle.numVars := by
        intro row member
        rw [grown]
        exact each row (List.mem_cons_of_mem _ member)
      have restSome : ∀ row ∈ rest, row.2 ≠ [] := fun row member => some row (List.mem_cons_of_mem _ member)
      have restUnclaimed : ∀ row ∈ rest, middle.Unclaimed row.2 := fun row member =>
        unclaimed_made store middle coherent.sound middleCoherent.sound follows block fits tally row.2
          (restSome row member) (others row member) (restFree row member)
      refine ends_bind _ _ middle _ _ _ (ih (first + 1) middle middleCoherent later restSome restApart restUnclaimed) ?_
      exact fun _ next same => same.trans grown

theorem append_done (book : Book) (table : BlockTable) (sizes : List Nat) (rows : List (Nat × List Var))
    (store : Store) (coherent : store.Coherent book) (planned : Planned store sizes rows) (some : rows ≠ []) :
    Ends (table.append rows) store
      (fun _ next => next.numVars = store.numVars + total (rows.map (·.2.length))) fun _ _ => False := by
  unfold append
  rw [if_neg (by simpa using some)]
  let grown := store.grow (total (rows.map (·.2.length)))
  have grownCoherent := grow_coherent book store coherent (total (rows.map (·.2.length)))
  have nonempty : ∀ row ∈ rows, row.2 ≠ [] := by
    intro row member none
    have width := planned.width row member
    rw [none] at width
    exact absurd width (Nat.succ_ne_zero _).symm
  have each : ∀ row ∈ rows, 0 < row.1 ∧ row.1 ≤ 2 ^ row.2.length ∧ ∀ v ∈ row.2, 0 < v ∧ v ≤ grown.numVars := by
    intro row member
    refine ⟨planned.positive row member, ?_, fun v inside => ?_⟩
    · rw [planned.width row member]
      exact bit_width_fits row.1
    · obtain ⟨above, below⟩ := planned.fresh row member v inside
      exact ⟨Nat.lt_of_le_of_lt (Nat.zero_le _) above, below⟩
  have free : ∀ row ∈ rows, grown.Unclaimed row.2 := by
    intro row member
    obtain ⟨v, inside⟩ := List.exists_mem_of_ne_nil row.2 (nonempty row member)
    exact unclaimed_fresh store coherent.sound _ row.2 v inside (planned.fresh row member v inside).1
  refine ends_then (modify (·.grow (total (rows.map (·.2.length))))) _ store grown () _ _ rfl ?_
  refine ends_bind _ _ grown _ _ _
    (make_blocks_done book rows table.size grown grownCoherent each nonempty planned.apart free) ?_
  exact fun _ next same => same

theorem widths_fit (sizes : List Nat) (positive : ∀ size ∈ sizes, 0 < size) :
    widths sizes = .ok (sizes.map bitWidth) := by
  induction sizes with
  | nil => rfl
  | cons size rest ih =>
      obtain ⟨first, others⟩ := List.forall_mem_cons.mp positive
      have later := ih others
      rw [widths] at later ⊢
      rw [List.mapM_cons, later, if_neg (Nat.ne_of_gt first)]
      rfl

theorem next_var_fits (store : Store) (n : Nat) (some : 0 < n) (narrow : store.config.maxVars < Var.bound)
    (room : n ≤ store.config.maxVars - store.numVars) : store.nextVar n = .ok (store.numVars + 1) := by
  have bound : store.numVars + 1 < Var.bound := by lia
  simp only [nextVar, if_pos (And.intro bound room)]

theorem total_positive (sizes : List Nat) (some : sizes ≠ []) : 0 < total (sizes.map bitWidth) := by
  cases sizes with
  | nil => exact absurd rfl some
  | cons size rest =>
      rw [List.map_cons, total_cons, bitWidth]
      lia

theorem plan_extend_fits (table : BlockTable) (sizes : List Nat) (store : Store)
    (owned : table.owner = none ∨ table.owner = some store.id) (some : sizes ≠ [])
    (positive : ∀ size ∈ sizes, 0 < size) (narrow : store.config.maxVars < Var.bound)
    (room : total (sizes.map bitWidth) ≤ store.config.maxVars - store.numVars) :
    table.planExtend sizes store = .ok (sizes.zip (interleave (store.numVars + 1) (sizes.map bitWidth))) := by
  have drawn := next_var_fits store _ (total_positive sizes some) narrow room
  have listed : sizes.isEmpty = false := by simpa using some
  simp only [planExtend, (check_owner_ok table store).mpr owned, widths_fit sizes positive, bind, Except.bind, listed,
    drawn]
  rfl

theorem planned_total (store : Store) (sizes : List Nat) (rows : List (Nat × List Var))
    (planned : Planned store sizes rows) : total (rows.map (·.2.length)) = total (sizes.map bitWidth) := by
  rw [← planned.sizes, List.map_map, List.map_congr_left planned.width]
  rfl

theorem extend_done (book : Book) (table : BlockTable) (sizes : List Nat) (store : Store)
    (coherent : store.Coherent book) (owned : table.owner = none ∨ table.owner = some store.id) (some : sizes ≠ [])
    (positive : ∀ size ∈ sizes, 0 < size) (narrow : store.config.maxVars < Var.bound)
    (room : total (sizes.map bitWidth) ≤ store.config.maxVars - store.numVars) :
    ∃ later next added, table.extend sizes store = .ok later next ∧
      next.numVars = store.numVars + total (sizes.map bitWidth) ∧
      added.map (fun block => (block.size, block.vars)) =
        sizes.zip (interleave (store.numVars + 1) (sizes.map bitWidth)) ∧
      Grown table later store next added := by
  have planned := interleave_planned store sizes positive
  have total := planned_total store sizes _ planned
  have rows : sizes.zip (interleave (store.numVars + 1) (sizes.map bitWidth)) ≠ [] := by
    intro none
    rw [← planned.sizes, none] at some
    exact some rfl
  have known := ends_and _ store _ _ _ _ (append_ends book table sizes _ store coherent planned)
    (append_done book table sizes _ store coherent planned rows)
  obtain ⟨later, next, done, ⟨_, added, same, grown⟩, vars⟩ := ends_done _ store _ _ known fun _ _ both => both.2
  refine ⟨later, next, added, ?_, total ▸ vars, same, grown⟩
  simp only [BlockTable.extend, Request.afterCheck, plan_extend_fits table sizes store owned some positive narrow room,
    Request.perform, done]

end BlockTable

-- New blocks of the given sizes at the end of a table, on the next variables of
-- the store. These are shared out column by column, from the most significant
-- bits on, and in a column block by block.
structure Allotted (table later : BlockTable) (store next : Store) (sizes : List Nat) (added : List Block) : Prop where
  vars : next.numVars = store.numVars + BlockTable.total (sizes.map bitWidth)
  owner : later.owner = some store.id
  blocks : later.blocks = table.blocks ++ added.toArray
  sized : added.map (·.size) = sizes
  indices : added.map (·.index) = List.range' table.size sizes.length
  widths : added.map (·.width) = sizes.map bitWidth
  placed : ∀ (k : Nat) (block : Block), added[k]? = some block → ∀ c, c < block.width → block.vars[c]? =
    some (store.numVars + 1 + (places (sizes.map bitWidth)).countP (precedes · (c, k)))
  once : (added.flatMap (·.vars)).Perm
    (List.range' (store.numVars + 1) (BlockTable.total (sizes.map bitWidth)))
  ascending : ∀ block ∈ added, block.vars.Pairwise (· < ·)

theorem grown_allotted (table later : BlockTable) (store next : Store) (sizes : List Nat) (added : List Block)
    (positive : ∀ size ∈ sizes, 0 < size) (some : sizes ≠ [])
    (vars : next.numVars = store.numVars + BlockTable.total (sizes.map bitWidth))
    (same : added.map (fun block => (block.size, block.vars)) =
      sizes.zip (interleave (store.numVars + 1) (sizes.map bitWidth)))
    (grown : table.Grown later store next added) : Allotted table later store next sizes added := by
  have planned := same ▸ BlockTable.interleave_planned store sizes positive
  have listed : added.map (·.size) = sizes := by
    have firsts := planned.sizes
    rwa [List.map_map] at firsts
  have count : added.length = sizes.length := by rw [← listed, List.length_map]
  have rowCount : (interleave (store.numVars + 1) (sizes.map bitWidth)).length = sizes.length := by
    have lengths := congrArg List.length (interleave_interleaved (store.numVars + 1) (sizes.map bitWidth)).lengths
    rwa [List.length_map, List.length_map] at lengths
  have spelt : added.map (·.vars) = interleave (store.numVars + 1) (sizes.map bitWidth) := by
    have seconds := congrArg (List.map (·.2)) same
    rwa [List.map_map, List.map_snd_zip (Nat.le_of_eq rowCount)] at seconds
  have wide : ∀ block ∈ added, block.width = bitWidth block.size := fun block member =>
    planned.width (block.size, block.vars) (List.mem_map_of_mem member)
  constructor
  case vars => exact vars
  case owner =>
    refine grown.owner.resolve_right fun vacant => some ?_
    rw [← listed, vacant.1]
    rfl
  case blocks => exact grown.blocks
  case sized => exact listed
  case indices => rw [grown.indices, count]
  case widths =>
    rw [← listed, List.map_map]
    exact List.map_congr_left wide
  case placed =>
    intro k block found c inside
    have size : (sizes.map bitWidth)[k]? = .some block.width := by
      rw [← listed, List.map_map, List.getElem?_map, found, wide block (List.mem_of_getElem? found)]
      rfl
    have row : (added.map (·.vars))[k]? = .some block.vars := by
      rw [List.getElem?_map, found]
      rfl
    rw [spelt, interleave_row _ _ k block.width size] at row
    rw [← Option.some.inj row, List.getElem?_map, List.getElem?_range inside]
    rfl
  case once =>
    rw [List.flatMap_def, spelt]
    exact interleave_once (store.numVars + 1) (sizes.map bitWidth)
  case ascending =>
    exact fun block member => planned.ascending (block.size, block.vars) (List.mem_map_of_mem member)

-- The limit on variables is itself a number in the range of variables.
theorem extend_allots (ws : Workspace) (reachable : ws.Reachable) (m t : Nat) (store : Store) (table : BlockTable)
    (found : ws.stores[m]? = some store) (tabled : ws.tables[t]? = some table)
    (owned : table.owner = none ∨ table.owner = some store.id) (sizes : List Nat) (some : sizes ≠ [])
    (positive : ∀ size ∈ sizes, 0 < size) (narrow : store.config.maxVars < Var.bound)
    (room : BlockTable.total (sizes.map bitWidth) ≤ store.config.maxVars - store.numVars) :
    ∃ later next added, (ws.perform (.extend m t sizes)).outcome = .ok (.index table.size) ∧
      (ws.perform (.extend m t sizes)).workspace = (ws.setStore m next).setTable t later ∧
      Allotted table later store next sizes added := by
  obtain ⟨book, _, trusted⟩ := Workspace.reachable_trusted ws reachable
  obtain ⟨later, next, added, done, vars, same, grown⟩ := BlockTable.extend_done book table sizes store
    (trusted m store found) owned some positive narrow room
  refine ⟨later, next, added, ?_, ?_, grown_allotted table later store next sizes added positive some vars same grown⟩
  · simp only [Workspace.perform, Workspace.extend, Workspace.table, tabled, Workspace.found, Workspace.on_store_run,
      found, done]
  · simp only [Workspace.perform, Workspace.extend, Workspace.table, tabled, Workspace.found, Workspace.on_store_run,
      found, done]

-- Three blocks drop out at different columns, after others in the same table.
theorem dealt_allots :
    ∃ (ws : Workspace) (store next : Store) (table later : BlockTable) (added : List Block),
      ws = Workspace.empty.run [.newStore { maxVars := 10 }, .newTable, .extend 0 0 [2, 4]] ∧
      ws.stores[0]? = some store ∧ ws.tables[0]? = some table ∧
      (ws.perform (.extend 0 0 [4, 8, 3])).outcome = .ok (.index 2) ∧
      (ws.perform (.extend 0 0 [4, 8, 3])).workspace = (ws.setStore 0 next).setTable 0 later ∧
      later.blocks.toList.map (·.vars) = [[1], [2, 3], [4, 7], [5, 8, 10], [6, 9]] ∧
      Allotted table later store next [4, 8, 3] added := by
  obtain ⟨ws, built⟩ : ∃ ws, ws = Workspace.empty.run [.newStore { maxVars := 10 }, .newTable,
    .extend 0 0 [2, 4]] := ⟨_, rfl⟩
  have stored : ws.stores[0]?.map (fun store => (store.id, store.config.maxVars, store.numVars)) = some (1, 10, 3) := by
    rw [built]
    decide +kernel
  have listed : ws.tables[0]?.map (fun table => (table.owner, table.size)) = some (some 1, 2) := by
    rw [built]
    decide +kernel
  have dealt : (ws.perform (.extend 0 0 [4, 8, 3])).workspace.tables[0]?.map (·.blocks.toList.map (·.vars)) =
      some [[1], [2, 3], [4, 7], [5, 8, 10], [6, 9]] := by
    rw [built]
    decide +kernel
  obtain ⟨store, found, values⟩ := Option.map_eq_some_iff.mp stored
  obtain ⟨table, tabled, shape⟩ := Option.map_eq_some_iff.mp listed
  obtain ⟨id, limit, vars⟩ : store.id = 1 ∧ store.config.maxVars = 10 ∧ store.numVars = 3 := by simpa using values
  obtain ⟨owner, size⟩ : table.owner = some 1 ∧ table.size = 2 := by simpa using shape
  obtain ⟨later, next, added, outcome, after, allotted⟩ := extend_allots ws ⟨_, built.symm⟩ 0 0 store table found tabled
    (.inr (id ▸ owner)) [4, 8, 3] (by decide) (by decide) (by rw [limit]; decide) (by rw [limit, vars]; decide)
  have tables : (ws.perform (.extend 0 0 [4, 8, 3])).workspace.tables[0]? = some later := by
    rw [after]
    exact Workspace.set_table_found (ws.setStore 0 next) 0 table later tabled
  rw [tables] at dealt
  exact ⟨ws, store, next, table, later, added, built, found, tabled, size ▸ outcome, after, Option.some.inj dealt,
    allotted⟩

end DomainDiagram
