import DomainDiagram.Proofs.Cubes
import DomainDiagram.Proofs.Interleaving
import DomainDiagram.Proofs.Tallies

set_option autoImplicit false

namespace DomainDiagram

theorem bit_width_fits (size : Nat) : size ≤ 2 ^ bitWidth size := by
  have less : size - 1 < 2 ^ ((size - 1).log2 + 1) := Nat.lt_log2_self
  rw [bitWidth]
  lia

namespace Block

structure Fits (block : Block) (store : Store) : Prop where
  positive : 0 < block.size
  wide : block.size ≤ 2 ^ block.width
  allocated : ∀ v ∈ block.vars, 0 < v ∧ v ≤ store.numVars
  live : store.Live block.varset
  set : ∀ env, store.eval block.varset env = block.vars.all env

theorem fits_follows (block : Block) (old new : Store) (oldSound : old.Sound) (newSound : new.Sound)
    (follows : Store.Follows old new) (fits : block.Fits old) : block.Fits new := by
  have allocated : ∀ v ∈ block.vars, 0 < v ∧ v ≤ new.numVars := fun v member =>
    ⟨(fits.allocated v member).1, Nat.le_trans (fits.allocated v member).2 follows.grown.vars⟩
  refine ⟨fits.positive, fits.wide, allocated, Store.extends_live old new follows.grown _ fits.live, fun env => ?_⟩
  rw [Store.eval_extends old new oldSound newSound follows.grown _ fits.live]
  exact fits.set env

def uses : List Block → Ref → Nat
  | [], _ => 0
  | block :: rest, f => block.varset.once f + uses rest f

theorem uses_terminal (blocks : List Block) (f : Ref) (small : f ≤ 1) : uses blocks f = 0 := by
  induction blocks with
  | nil => rfl
  | cons block rest ih =>
      have none : block.varset.once f = 0 := by
        rw [Ref.once, if_neg]
        rintro ⟨large, rfl⟩
        exact Nat.not_le_of_lt (Nat.lt_succ_of_le small) large
      rw [uses, none, ih]

theorem uses_append (blocks more : List Block) (f : Ref) : uses (blocks ++ more) f = uses blocks f + uses more f := by
  induction blocks with
  | nil => exact (Nat.zero_add _).symm
  | cons block rest ih => rw [List.cons_append, uses, uses, ih, Nat.add_assoc]

theorem uses_mem (blocks : List Block) (block : Block) (member : block ∈ blocks) (large : 2 ≤ block.varset) :
    0 < uses blocks block.varset := by
  induction blocks with
  | nil => exact nomatch member
  | cons other rest ih =>
      rw [uses]
      rcases List.mem_cons.mp member with rfl | later
      · rw [Ref.once, if_pos ⟨large, rfl⟩]
        lia
      · exact Nat.add_pos_right _ (ih later)

end Block

namespace BlockTable

open Store DomainDiagram.Action

theorem bind_ok {ε α β : Type} (plan : Except ε α) (next : α → Except ε β) (b : β) (done : plan >>= next = .ok b) :
    ∃ a, plan = .ok a ∧ next a = .ok b := by
  cases plan with
  | ok a => exact ⟨a, rfl, done⟩
  | error _ => exact nomatch done

theorem widths_ok (sizes given : List Nat) (checked : widths sizes = .ok given) :
    given = sizes.map bitWidth ∧ ∀ size ∈ sizes, 0 < size := by
  induction sizes generalizing given with
  | nil =>
      have none : given = [] := (Except.ok.inj checked).symm
      exact ⟨none, nofun⟩
  | cons size rest ih =>
      rw [widths, List.mapM_cons] at checked
      obtain ⟨width, measured, later⟩ := bind_ok _ _ given checked
      obtain ⟨others, more, made⟩ := bind_ok _ _ given later
      obtain ⟨listed, positive⟩ := ih others more
      by_cases zero : size = 0
      · rw [if_pos zero] at measured
        exact nomatch measured
      · rw [if_neg zero] at measured
        obtain rfl := Except.ok.inj measured
        obtain rfl := Except.ok.inj made
        exact ⟨congrArg (bitWidth size :: ·) listed, List.forall_mem_cons.mpr ⟨Nat.pos_of_ne_zero zero, positive⟩⟩

structure Planned (store : Store) (sizes : List Nat) (rows : List (Nat × List Var)) : Prop where
  sizes : rows.map (·.1) = sizes
  positive : ∀ row ∈ rows, 0 < row.1
  width : ∀ row ∈ rows, row.2.length = bitWidth row.1
  ascending : ∀ row ∈ rows, row.2.Pairwise (· < ·)
  fresh : ∀ row ∈ rows, ∀ v ∈ row.2,
    store.numVars < v ∧ v ≤ store.numVars + total (rows.map (·.2.length))
  apart : rows.Pairwise fun a b => a.2.Disjoint b.2

@[simp] theorem check_owner_ok (table : BlockTable) (store : Store) :
    table.checkOwner store = .ok () ↔ table.owner = none ∨ table.owner = some store.id := by
  unfold checkOwner
  cases table.owner with
  | none => simp
  | some expected =>
      by_cases same : expected = store.id
      · simp [same]
      · simp [same]

@[simp] theorem check_owner_mine (table : BlockTable) (store : Store) (owned : table.owner = some store.id) :
    table.checkOwner store = .ok () := (check_owner_ok table store).mpr (.inr owned)

theorem next_var_ok (store : Store) (n : Nat) (first : Var) (drawn : store.nextVar n = .ok first) :
    first = store.numVars + 1 := by
  simp only [nextVar] at drawn
  split at drawn
  · exact (Except.ok.inj drawn).symm
  · exact nomatch drawn

theorem zip_width (sizes : List Nat) (rows : List (List Var)) (lengths : rows.map (·.length) = sizes.map bitWidth) :
    ∀ row ∈ sizes.zip rows, row.2.length = bitWidth row.1 := by
  induction sizes generalizing rows with
  | nil => exact nofun
  | cons size rest ih =>
      cases rows with
      | nil => exact nofun
      | cons vars others =>
          obtain ⟨first, later⟩ := List.cons.inj lengths
          exact List.forall_mem_cons.mpr ⟨first, ih others later⟩

theorem interleave_planned (store : Store) (sizes : List Nat) (positive : ∀ size ∈ sizes, 0 < size) :
    Planned store sizes (sizes.zip (interleave (store.numVars + 1) (sizes.map bitWidth))) := by
  have dealt := interleave_interleaved (store.numVars + 1) (sizes.map bitWidth)
  have lengths := dealt.lengths
  generalize interleave (store.numVars + 1) (sizes.map bitWidth) = rows at dealt lengths
  have same : sizes.length = rows.length := by
    have counted := congrArg List.length lengths
    rw [List.length_map, List.length_map] at counted
    exact counted.symm
  have seconds : (sizes.zip rows).map (·.2) = rows := List.map_snd_zip (Nat.le_of_eq same.symm)
  have listed : (sizes.zip rows).map (·.2.length) = sizes.map bitWidth := by
    rw [← lengths, ← congrArg (List.map (·.length)) seconds, List.map_map]
    rfl
  have member : ∀ row ∈ sizes.zip rows, row.1 ∈ sizes ∧ row.2 ∈ rows := fun row inside => List.of_mem_zip inside
  constructor
  case sizes => exact List.map_fst_zip (Nat.le_of_eq same)
  case positive => exact fun row inside => positive row.1 (member row inside).1
  case width => exact zip_width sizes rows lengths
  case ascending => exact fun row inside => dealt.ascending row.2 (member row inside).2
  case fresh =>
    intro row inside v there
    have bounds := dealt.inside row.2 (member row inside).2 v there
    rw [listed]
    lia
  case apart =>
    refine List.pairwise_map.mp ?_
    rw [seconds]
    exact dealt.apart

theorem plan_extend_ok (table : BlockTable) (sizes : List Nat) (store : Store) (rows : List (Nat × List Var))
    (planned : table.planExtend sizes store = .ok rows) :
    (table.owner = none ∨ table.owner = some store.id) ∧ Planned store sizes rows := by
  obtain ⟨_, owned, looked⟩ := bind_ok _ _ rows planned
  obtain ⟨given, checked, shared⟩ := bind_ok _ _ rows looked
  obtain ⟨rfl, positive⟩ := widths_ok sizes given checked
  refine ⟨(check_owner_ok table store).mp owned, ?_⟩
  cases sizes with
  | nil =>
      obtain rfl := Except.ok.inj shared
      exact ⟨rfl, nofun, nofun, nofun, nofun, .nil⟩
  | cons size rest =>
      obtain ⟨first, drawn, dealt⟩ := bind_ok _ _ rows shared
      obtain rfl := next_var_ok store _ first drawn
      obtain rfl := Except.ok.inj dealt
      exact interleave_planned store (size :: rest) positive

theorem make_block_ends (book : Book) (index size : Nat) (vars : List Var) (store : Store)
    (coherent : store.Coherent book) (positive : 0 < size) (wide : size ≤ 2 ^ vars.length)
    (allocated : ∀ v ∈ vars, 0 < v ∧ v ≤ store.numVars) :
    Ends (makeBlock index size vars) store
      (fun block next => (Follows store next ∧ next.Coherent book) ∧
        ((block.size, block.vars), block.index) = ((size, vars), index) ∧
        block.Fits next ∧ ∀ f, next.tally f = store.tally f + block.varset.once f)
      (fun fault next => ((Follows store next ∧ next.Coherent book) ∧ ∀ f, store.tally f ≤ next.tally f) ∧
        fault.overflows = true) := by
  obtain ⟨set, middle, made, advanced, live, value⟩ := gives_cube book store coherent vars allocated
  have start := advances_follows book store middle advanced
  have even := tally_built store middle advanced.built
  refine ends_then _ _ store middle set _ _ made ?_
  have kept := ends_and _ middle _ _ _ _ ((regular_hold book set).ends middle advanced.coherent)
    (hold_tally middle set)
  have held := ends_and _ middle _ _ _ _ kept (hold_breaks middle advanced.coherent.sound set live)
  refine ends_bind _ _ middle _ _ _ (ends_mono _ middle _ _ _ _ held (fun _ _ known => known) ?_) ?_
  · rintro _ next ⟨⟨kept, rfl⟩, rfl, _⟩
    exact ⟨⟨⟨start, kept.2⟩, fun f => Nat.le_of_eq (even f).symm⟩, rfl⟩
  · rintro r next ⟨⟨⟨follows, nextCoherent⟩, rfl, tally⟩, _⟩
    have fits : Block.Fits ⟨index, size, vars, r⟩ middle :=
      ⟨positive, wide, fun v member => advanced.built.vars.symm ▸ allocated v member, live, value⟩
    refine ⟨⟨follows_trans store middle next start follows, nextCoherent⟩, rfl, ?_, fun f => ?_⟩
    · exact Block.fits_follows _ middle next advanced.coherent.sound nextCoherent.sound follows fits
    · rw [tally, even]

theorem make_blocks_ends (book : Book) (rows : List (Nat × List Var)) (first : Nat) (store : Store)
    (coherent : store.Coherent book) (each : ∀ row ∈ rows, 0 < row.1 ∧ row.1 ≤ 2 ^ row.2.length ∧
      ∀ v ∈ row.2, 0 < v ∧ v ≤ store.numVars) :
    Ends ((rows.zipIdx first).mapM fun ((size, vars), index) => makeBlock index size vars) store
      (fun blocks next => (Follows store next ∧ next.Coherent book) ∧
        blocks.map (fun block => ((block.size, block.vars), block.index)) = rows.zipIdx first ∧
        (∀ block ∈ blocks, block.Fits next) ∧
        ∀ f, next.tally f = store.tally f + Block.uses blocks f)
      (fun fault next => ((Follows store next ∧ next.Coherent book) ∧ ∀ f, store.tally f ≤ next.tally f) ∧
        fault.overflows = true) := by
  induction rows generalizing first store with
  | nil => exact ⟨⟨follows_refl store, coherent⟩, rfl, nofun, fun _ => rfl⟩
  | cons row rest ih =>
      obtain ⟨size, vars⟩ := row
      obtain ⟨positive, wide, allocated⟩ := each (size, vars) List.mem_cons_self
      rw [List.zipIdx_cons, List.mapM_cons]
      refine ends_bind _ _ store _ _ _ (make_block_ends book first size vars store coherent positive wide allocated) ?_
      rintro block middle ⟨⟨start, middleCoherent⟩, same, fits, tally⟩
      have later : ∀ row ∈ rest, 0 < row.1 ∧ row.1 ≤ 2 ^ row.2.length ∧
          ∀ v ∈ row.2, 0 < v ∧ v ≤ middle.numVars := by
        intro row member
        obtain ⟨positive, wide, allocated⟩ := each row (List.mem_cons_of_mem _ member)
        exact ⟨positive, wide, fun v inside =>
          ⟨(allocated v inside).1, Nat.le_trans (allocated v inside).2 start.grown.vars⟩⟩
      refine ends_bind _ _ middle _ _ _ (ends_mono _ middle _ _ _ _ (ih (first + 1) middle middleCoherent later)
        (fun _ _ known => known) ?_) ?_
      · rintro _ next ⟨⟨⟨follows, nextCoherent⟩, more⟩, full⟩
        refine ⟨⟨⟨follows_trans store middle next start follows, nextCoherent⟩, fun f => ?_⟩, full⟩
        exact Nat.le_trans (tally f ▸ Nat.le_add_right _ _) (more f)
      · rintro blocks next ⟨⟨follows, nextCoherent⟩, others, allFit, more⟩
        refine ⟨⟨follows_trans store middle next start follows, nextCoherent⟩, ?_, ?_, fun f => ?_⟩
        · rw [List.map_cons, same, others]
        · refine List.forall_mem_cons.mpr ⟨?_, allFit⟩
          exact Block.fits_follows block middle next middleCoherent.sound nextCoherent.sound follows fits
        · rw [more, tally, Block.uses, Nat.add_assoc]

theorem zip_idx_split {α β : Type} (items : List α) (value : α → β) (index : α → Nat) (values : List β) (first : Nat)
    (same : items.map (fun item => (value item, index item)) = values.zipIdx first) :
    items.map value = values ∧ items.map index = List.range' first items.length := by
  have firsts := congrArg (List.map Prod.fst) same
  have seconds := congrArg (List.map Prod.snd) same
  simp only [List.map_map, List.zipIdx_map_fst, List.zipIdx_map_snd] at firsts seconds
  have lengths : items.length = values.length := by
    rw [← firsts, List.length_map]
  exact ⟨firsts, lengths ▸ seconds⟩

structure Grown (table later : BlockTable) (store next : Store) (added : List Block) : Prop where
  blocks : later.blocks = table.blocks ++ added.toArray
  owner : later.owner = some store.id ∨ (added = [] ∧ later.owner = table.owner)
  indices : added.map (·.index) = List.range' table.size added.length
  fits : ∀ block ∈ added, block.Fits next
  tally : ∀ f, next.tally f = store.tally f + Block.uses added f

theorem append_ends (book : Book) (table : BlockTable) (sizes : List Nat) (rows : List (Nat × List Var))
    (store : Store) (coherent : store.Coherent book) (planned : Planned store sizes rows) :
    Ends (table.append rows) store
      (fun later next => (Follows store next ∧ next.Coherent book) ∧ ∃ blocks,
        blocks.map (fun block => (block.size, block.vars)) = rows ∧ Grown table later store next blocks)
      (fun fault next => ((Follows store next ∧ next.Coherent book) ∧ ∀ f, store.tally f ≤ next.tally f) ∧
        fault.overflows = true) := by
  unfold append
  cases rows with
  | nil =>
      refine ⟨⟨follows_refl store, coherent⟩, [], rfl, ?_, .inr ⟨rfl, rfl⟩, rfl, nofun, fun _ => rfl⟩
      exact (Array.append_empty).symm
  | cons row rest =>
      rw [if_neg (by simp)]
      let grown := store.grow (total ((row :: rest).map (·.2.length)))
      have start := grow_follows store (total ((row :: rest).map (·.2.length)))
      have grownCoherent := grow_coherent book store coherent (total ((row :: rest).map (·.2.length)))
      have each : ∀ other ∈ row :: rest, 0 < other.1 ∧ other.1 ≤ 2 ^ other.2.length ∧
          ∀ v ∈ other.2, 0 < v ∧ v ≤ grown.numVars := by
        intro other member
        refine ⟨planned.positive other member, ?_, fun v inside => ?_⟩
        · rw [planned.width other member]
          exact bit_width_fits other.1
        · obtain ⟨above, below⟩ := planned.fresh other member v inside
          exact ⟨Nat.lt_of_le_of_lt (Nat.zero_le _) above, below⟩
      refine ends_then (modify (·.grow (total ((row :: rest).map (·.2.length))))) _ store grown () _ _ rfl ?_
      refine ends_bind _ _ grown _ _ _ (ends_mono _ grown _ _ _ _
        (make_blocks_ends book (row :: rest) table.size grown grownCoherent each) (fun _ _ known => known) ?_) ?_
      · rintro _ next ⟨⟨⟨follows, nextCoherent⟩, more⟩, full⟩
        exact ⟨⟨⟨follows_trans store grown next start follows, nextCoherent⟩, more⟩, full⟩
      · rintro blocks next ⟨⟨follows, nextCoherent⟩, same, fits, tally⟩
        have whole := follows_trans store grown next start follows
        obtain ⟨shared, indices⟩ := zip_idx_split _ _ _ _ table.size same
        exact ⟨⟨whole, nextCoherent⟩, blocks, shared, rfl, .inl (congrArg some whole.id), indices, fits, tally⟩

theorem extend_ends (book : Book) (table : BlockTable) (sizes : List Nat) (store : Store)
    (coherent : store.Coherent book) :
    Ends (table.extend sizes) store
      (fun later next => (Follows store next ∧ next.Coherent book) ∧
        (table.owner = none ∨ table.owner = some store.id) ∧
        ∃ rows blocks, Planned store sizes rows ∧ blocks.map (fun block => (block.size, block.vars)) = rows ∧
          Grown table later store next blocks)
      (fun failure next => ((Follows store next ∧ next.Coherent book) ∧ ∀ f, store.tally f ≤ next.tally f) ∧
        (failure.overflows = true ∨ ∀ f, next.tally f = store.tally f)) := by
  unfold Ends extend Request.afterCheck
  cases checked : table.planExtend sizes store with
  | error refusal => exact ⟨⟨⟨follows_refl store, coherent⟩, fun _ => Nat.le_refl _⟩, .inr fun _ => rfl⟩
  | ok rows =>
      obtain ⟨owned, planned⟩ := plan_extend_ok table sizes store rows checked
      refine ends_perform (table.append rows) store _ _ (ends_mono _ store _ _ _ _
        (append_ends book table sizes rows store coherent planned) ?_ fun _ _ known => ⟨known.1, .inl known.2⟩)
      rintro later next ⟨kept, blocks, same, grown⟩
      exact ⟨kept, owned, rows, blocks, planned, same, grown⟩

theorem block_ok (table : BlockTable) (index : Nat) (block : Block) (found : table.block index = .ok block) :
    table.blocks[index]? = some block := by
  unfold BlockTable.block at found
  split at found
  · next other here => rw [here, Except.ok.inj found]
  · exact nomatch found

theorem read_block_ok {α : Type} (table : BlockTable) (index : Nat) (store : Store) (next : Block → Except Refusal α)
    (a : α) (planned : (do
      table.checkOwner store
      let block ← table.block index
      next block) = .ok a) :
    (table.owner = none ∨ table.owner = some store.id) ∧
      ∃ block, table.blocks[index]? = some block ∧ next block = .ok a := by
  obtain ⟨_, owned, looked⟩ := bind_ok _ _ a planned
  obtain ⟨block, found, rest⟩ := bind_ok _ _ a looked
  exact ⟨(check_owner_ok table store).mp owned, block, block_ok table index block found, rest⟩

theorem plan_overlap_ok (table : BlockTable) (left right : Nat) (store : Store) (a b : Block)
    (planned : table.planOverlap left right store = .ok (a, b)) :
    (table.owner = none ∨ table.owner = some store.id) ∧ table.blocks[left]? = some a ∧
      table.blocks[right]? = some b := by
  obtain ⟨owned, c, first, looked⟩ := read_block_ok table left store _ (a, b) planned
  obtain ⟨d, found, sized⟩ := bind_ok _ _ (a, b) looked
  split at sized
  · obtain ⟨rfl, rfl⟩ := Prod.mk.inj (Except.ok.inj sized)
    exact ⟨owned, first, block_ok table right d found⟩
  · exact nomatch sized

theorem plan_value_ok (table : BlockTable) (index value : Nat) (store : Store) (block : Block)
    (planned : table.planValue index value store = .ok block) :
    (table.owner = none ∨ table.owner = some store.id) ∧ table.blocks[index]? = some block := by
  obtain ⟨owned, found, listed, checked⟩ := read_block_ok table index store _ block planned
  by_cases large : found.size < value
  · simp [large, throw, throwThe, MonadExceptOf.throw, bind, Except.bind] at checked
  · simp only [if_neg large] at checked
    exact ⟨owned, Except.ok.inj checked ▸ listed⟩

theorem plan_block_ok (table : BlockTable) (index : Nat) (store : Store) (block : Block)
    (planned : table.planBlock index store = .ok block) :
    (table.owner = none ∨ table.owner = some store.id) ∧ table.blocks[index]? = some block := by
  rw [planBlock, ← bind_pure (table.block index)] at planned
  obtain ⟨owned, found, listed, same⟩ := read_block_ok table index store pure block planned
  exact ⟨owned, Except.ok.inj same ▸ listed⟩

theorem plan_equal_ok (table : BlockTable) (left right : Nat) (store : Store) (a b : Block)
    (planned : table.planEqual left right store = .ok (a, b)) :
    (table.owner = none ∨ table.owner = some store.id) ∧ table.blocks[left]? = some a ∧
      table.blocks[right]? = some b := by
  obtain ⟨owned, c, first, looked⟩ := read_block_ok table left store _ (a, b) planned
  obtain ⟨d, found, sized⟩ := bind_ok _ _ (a, b) looked
  have same : (c, d) = (a, b) := by
    by_cases size : c.size = d.size <;> by_cases width : c.width = d.width <;>
      simp [size, width, throw, throwThe, MonadExceptOf.throw, bind, Except.bind, pure, Except.pure] at sized ⊢
    exact sized
  obtain ⟨rfl, rfl⟩ := Prod.mk.inj same
  exact ⟨owned, first, block_ok table right d found⟩

theorem plan_union_ok (table : BlockTable) (indices : List Nat) (store : Store) (sets : List Ref)
    (planned : table.planUnion indices store = .ok sets) :
    (table.owner = none ∨ table.owner = some store.id) ∧
      ∀ set ∈ sets, ∃ (i : Nat) (block : Block), table.blocks[i]? = some block ∧ block.varset = set := by
  obtain ⟨_, owned, read⟩ := bind_ok _ _ sets planned
  refine ⟨(check_owner_ok table store).mp owned, ?_⟩
  clear planned
  induction indices generalizing sets with
  | nil =>
      obtain rfl := Except.ok.inj read
      exact nofun
  | cons index rest ih =>
      rw [List.mapM_cons] at read
      obtain ⟨set, looked, later⟩ := bind_ok _ _ sets read
      obtain ⟨others, more, made⟩ := bind_ok _ _ sets later
      obtain rfl := Except.ok.inj made
      refine List.forall_mem_cons.mpr ⟨?_, ih others more⟩
      cases found : table.block index with
      | ok block =>
          rw [varset, found] at looked
          exact ⟨index, block, block_ok table index block found, Except.ok.inj looked⟩
      | error refusal =>
          rw [varset, found] at looked
          exact nomatch looked

theorem overlap_ends (book : Book) (table : BlockTable) (left right : Nat) (store : Store)
    (coherent : store.Coherent book) :
    Ends (table.overlap left right) store
      (fun later next => (Follows store next ∧ next.Coherent book) ∧
        (table.owner = none ∨ table.owner = some store.id) ∧
        ∃ a b set, table.blocks[left]? = some a ∧ table.blocks[right]? = some b ∧
          next.Combines .and a.varset b.varset set ∧
          later = { table with
            blocks := table.blocks.push ⟨table.size, a.size * b.size, a.vars ++ b.vars, set⟩ } ∧
          ∀ f, next.tally f = store.tally f + set.once f)
      (fun _ next => (Follows store next ∧ next.Coherent book) ∧ ∀ f, next.tally f = store.tally f) := by
  unfold Ends overlap Request.afterCheck
  cases checked : table.planOverlap left right store with
  | error refusal => exact ⟨⟨follows_refl store, coherent⟩, fun _ => rfl⟩
  | ok pair =>
      obtain ⟨a, b⟩ := pair
      obtain ⟨owned, first, second⟩ := plan_overlap_ok table left right store a b checked
      refine ends_perform _ store _ _ ?_
      refine ends_bind _ _ store _ _ _ (ends_mono _ store _ _ _ _
        (advance_combine book .and store coherent a.varset b.varset) (fun _ _ known => known) ?_) ?_
      · rintro _ next ⟨advanced, _⟩
        exact ⟨⟨advances_follows book store next advanced, advanced.coherent⟩, tally_built store next advanced.built⟩
      · rintro set middle ⟨advanced, combined⟩
        have start := advances_follows book store middle advanced
        have even := tally_built store middle advanced.built
        have held := ends_and _ middle _ _ _ _ ((regular_hold book set).ends middle advanced.coherent)
          (hold_tally middle set)
        refine ends_bind _ _ middle _ _ _ (ends_mono _ middle _ _ _ _ held (fun _ _ known => known) ?_) ?_
        · rintro _ next ⟨kept, rfl⟩
          exact ⟨⟨start, kept.2⟩, even⟩
        · rintro r next ⟨⟨follows, nextCoherent⟩, rfl, tally⟩
          refine ⟨⟨follows_trans store middle next start follows, nextCoherent⟩, owned, a, b, r, first, second,
            combines_extends middle next follows.grown .and a.varset b.varset r combined, rfl, fun f => ?_⟩
          rw [tally, even]

theorem release_all_ends (book : Book) (blocks : List Block) (store : Store) (coherent : store.Coherent book) :
    Ends (releaseAll blocks) store
      (fun _ next => (Follows store next ∧ next.Coherent book) ∧
        ∀ f, next.tally f + Block.uses blocks f = store.tally f)
      (fun _ next => (Follows store next ∧ next.Coherent book) ∧ ∃ f, store.tally f < Block.uses blocks f) := by
  induction blocks generalizing store with
  | nil => exact ⟨⟨follows_refl store, coherent⟩, fun _ => rfl⟩
  | cons block rest ih =>
      have first := ends_and _ store _ _ _ _ ((regular_release book block.varset).ends store coherent)
        (release_tally store block.varset)
      refine ends_bind _ _ store _ _ _ (ends_mono _ store _ _ _ _ first (fun _ _ known => known) ?_) ?_
      · rintro _ next ⟨kept, rfl, large, none⟩
        refine ⟨kept, block.varset, ?_⟩
        rw [none]
        exact Block.uses_mem (block :: rest) block List.mem_cons_self large
      · rintro _ middle ⟨⟨start, middleCoherent⟩, tally⟩
        refine ends_mono _ middle _ _ _ _ (ih middle middleCoherent) ?_ ?_
        · rintro _ next ⟨⟨follows, nextCoherent⟩, rest⟩
          refine ⟨⟨follows_trans store middle next start follows, nextCoherent⟩, fun f => ?_⟩
          rw [← tally, ← rest, Block.uses]
          lia
        · rintro _ next ⟨⟨follows, nextCoherent⟩, f, short⟩
          refine ⟨⟨follows_trans store middle next start follows, nextCoherent⟩, f, ?_⟩
          rw [← tally, Block.uses]
          lia

end BlockTable
end DomainDiagram
