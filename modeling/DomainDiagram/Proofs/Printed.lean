import DomainDiagram.Proofs.Paths
import DomainDiagram.Proofs.Codes
import DomainDiagram.Proofs.Shapes
import DomainDiagram.Query
import Mathlib.Data.List.Forall2

set_option autoImplicit false

namespace DomainDiagram

theorem spelt_bit (bits : List Var) (env : Var → Bool) (i : Nat) (v : Var) (here : bits[i]? = some v) :
    (spelt bits env).testBit i = env v := by
  induction bits generalizing i with
  | nil => exact nomatch here
  | cons w rest ih =>
      cases i with
      | zero =>
          obtain rfl := Option.some.inj here
          rw [spelt, Nat.testBit_zero]
          cases env w <;> simp
      | succ i =>
          have half : ((env w).toNat + 2 * spelt rest env) / 2 = spelt rest env := by
            have small := Bool.toNat_le (env w)
            omega
          rw [spelt, Nat.testBit_succ, half]
          exact ih i here

namespace Block

def Allows (block : Block) (path : Path) (n : Nat) : Prop :=
  ∀ i v value, block.bits[i]? = some v → (v, value) ∈ path → n.testBit i = value

theorem fixed_mem (block : Block) (path : Path) (once : (path.map (·.1)).Nodup) (i : Nat) (value : Bool) :
    (i, value) ∈ block.fixedBits path.reverse ↔ ∃ v, block.bits[i]? = some v ∧ (v, value) ∈ path := by
  have onceBack : (path.reverse.map (·.1)).Nodup := by
    rw [List.map_reverse]
    exact List.nodup_reverse.mpr once
  have looked : ∀ v, (path.reverse.lookup v = some value ↔ (v, value) ∈ path) := fun v =>
    (Path.lookup_mem path.reverse onceBack v value).trans List.mem_reverse
  simp only [fixedBits, List.mem_filterMap, List.mem_zipIdx_iff_getElem?, Prod.exists, Option.map_eq_some_iff,
    Prod.mk.injEq]
  constructor
  · rintro ⟨v, j, here, _, found, rfl, rfl⟩
    exact ⟨v, here, (looked v).mp found⟩
  · rintro ⟨v, here, chosen⟩
    exact ⟨v, i, here, value, (looked v).mpr chosen, rfl, rfl⟩

theorem agrees_allows (block : Block) (path : Path) (once : (path.map (·.1)).Nodup) (n : Nat) :
    agrees (block.fixedBits path.reverse) n = true ↔ block.Allows path n := by
  simp only [agrees, List.all_eq_true, beq_iff_eq, Prod.forall]
  constructor
  · intro every i v value here chosen
    exact every i value ((fixed_mem block path once i value).mpr ⟨v, here, chosen⟩)
  · intro allows i value fixed
    obtain ⟨v, here, chosen⟩ := (fixed_mem block path once i value).mp fixed
    exact allows i v value here chosen

theorem fixed_nonempty (block : Block) (path : Path) (once : (path.map (·.1)).Nodup) :
    block.fixedBits path.reverse ≠ [] ↔ ∃ v ∈ block.vars, ∃ value, (v, value) ∈ path := by
  constructor
  · intro some
    obtain ⟨⟨i, value⟩, fixed⟩ := List.exists_mem_of_ne_nil _ some
    obtain ⟨v, here, chosen⟩ := (fixed_mem block path once i value).mp fixed
    exact ⟨v, List.mem_reverse.mp (List.mem_of_getElem? here), value, chosen⟩
  · rintro ⟨v, member, value, chosen⟩
    obtain ⟨i, here⟩ := List.mem_iff_getElem?.mp (List.mem_reverse.mpr member)
    exact List.ne_nil_of_mem ((fixed_mem block path once i value).mpr ⟨v, here, chosen⟩)

def left (block : Block) (path : Path) : List Nat :=
  (List.range block.size).filter (agrees (block.fixedBits path.reverse))

theorem left_mem (block : Block) (path : Path) (once : (path.map (·.1)).Nodup) (n : Nat) :
    n ∈ block.left path ↔ n < block.size ∧ block.Allows path n := by
  rw [left, List.mem_filter, List.mem_range, agrees_allows block path once]

theorem code_allowed (block : Block) (path : Path) (env : Var → Bool) (along : path.agrees env = true) :
    block.Allows path (block.code env) := by
  intro i v value here chosen
  rw [code, spelt_bit block.bits env i v here]
  exact beq_iff_eq.mp (List.all_eq_true.mp along (v, value) chosen)

end Block

theorem path_agreeable (path : Path) (once : (path.map (·.1)).Nodup) : ∃ env, path.agrees env = true := by
  refine ⟨fun v => (path.lookup v).getD false, List.all_eq_true.mpr ?_⟩
  rintro ⟨v, value⟩ chosen
  have found := (Path.lookup_mem path once v value).mpr chosen
  simp only [found, Option.getD_some, beq_self_eq_true]

theorem allowed_together (path : Path) (once : (path.map (·.1)).Nodup) (blocks : List Block) (tuple : List Nat)
    (apart : (blocks.flatMap (·.vars)).Nodup)
    (allowed : List.Forall₂ (fun block n => n < 2 ^ block.width ∧ block.Allows path n) blocks tuple) :
    ∃ env, path.agrees env = true ∧ blocks.map (·.code env) = tuple := by
  induction allowed with
  | nil =>
      obtain ⟨env, along⟩ := path_agreeable path once
      exact ⟨env, along, rfl⟩
  | @cons block n blocks tuple first rest ih =>
      obtain ⟨fits, allows⟩ := first
      rw [List.flatMap_cons, List.nodup_append'] at apart
      obtain ⟨own, others, disjoint⟩ := apart
      obtain ⟨env, along, codes⟩ := ih others
      have wide : n < 2 ^ block.bits.length := by rwa [Block.bits, List.length_reverse]
      obtain ⟨other, same, value⟩ := spelt_onto block.bits (List.nodup_reverse.mpr own) env n wide
      have outside : ∀ v, v ∉ block.vars → other v = env v := fun v apart =>
        same v fun member => apart (List.mem_reverse.mp member)
      refine ⟨other, List.all_eq_true.mpr ?_, ?_⟩
      · rintro ⟨v, bit⟩ chosen
        apply beq_iff_eq.mpr
        by_cases member : v ∈ block.vars
        · obtain ⟨i, here⟩ := List.mem_iff_getElem?.mp (List.mem_reverse.mpr member)
          rw [← spelt_bit block.bits other i v here, value]
          exact allows i v bit here chosen
        · rw [outside v member]
          exact beq_iff_eq.mp (List.all_eq_true.mp along (v, bit) chosen)
      · have still : ∀ later ∈ blocks, later.code other = later.code env := by
          intro later listed
          refine spelt_agree later.bits other env fun v member => outside v fun inside => ?_
          exact disjoint inside (List.mem_flatMap.mpr ⟨later, listed, List.mem_reverse.mp member⟩)
        rw [List.map_cons, List.map_congr_left still, codes, Block.code, value]

namespace BlockTable

-- What a group tells of the blocks of a table along a path: which ones the
-- path says something about, and the values it leaves them, each by itself
-- and together.
structure Renders (table : BlockTable) (path : Path) (group : List (Nat × List Nat)) : Prop where
  order : (group.map (·.1)).Pairwise (· < ·)
  listed : ∀ k, k ∈ group.map (·.1) ↔
    ∃ block, table.blocks[k]? = some block ∧ ∃ v ∈ block.vars, ∃ value, (v, value) ∈ path
  values : ∀ k values, (k, values) ∈ group →
    ∃ block, table.blocks[k]? = some block ∧ values.Pairwise (· < ·) ∧ ∀ n ∈ values, n < block.size
  product : ∀ chosen : List (Block × List Nat),
    (∀ cell ∈ chosen, ∃ k, table.blocks[k]? = some cell.1 ∧ (k, cell.2) ∈ group) →
    (chosen.flatMap (·.1.vars)).Nodup → ∀ tuple : List Nat,
      (List.Forall₂ (fun cell n => n ∈ cell.2) chosen tuple ↔
        List.Forall₂ (fun cell n => n < cell.1.size) chosen tuple ∧
          ∃ env, path.agrees env = true ∧ chosen.map (·.1.code env) = tuple)

structure Numbered (table : BlockTable) : Prop where
  index : ∀ (i : Nat) (block : Block), table.blocks[i]? = some block → block.index = i
  wide : ∀ (i : Nat) (block : Block), table.blocks[i]? = some block → block.size ≤ 2 ^ block.width

theorem numbered_mem (table : BlockTable) (numbered : table.Numbered) (block : Block) :
    block ∈ table.blocks.toList ↔ table.blocks[block.index]? = some block := by
  rw [List.mem_iff_getElem?]
  constructor
  · rintro ⟨i, here⟩
    have listed := Array.getElem?_toList.symm.trans here
    exact (numbered.index i block listed).symm ▸ listed
  · exact fun listed => ⟨block.index, Array.getElem?_toList.trans listed⟩

theorem numbered_ascending (table : BlockTable) (numbered : table.Numbered) (picks : Block → Bool) :
    ((table.blocks.toList.filter picks).map (·.index)).Pairwise (· < ·) := by
  have indices : table.blocks.toList.map (·.index) = List.range table.size := by
    refine List.ext_getElem? fun i => ?_
    rw [List.getElem?_map, Array.getElem?_toList]
    by_cases inside : i < table.blocks.size
    · have listed : table.blocks[i]? = some table.blocks[i] := Array.getElem?_eq_getElem inside
      rw [listed, Option.map_some, numbered.index i _ listed]
      exact (List.getElem?_range inside).symm
    · have beyond := Nat.le_of_not_lt inside
      rw [Array.getElem?_eq_none_iff.mpr beyond, List.getElem?_eq_none_iff.mpr (by simpa [size] using beyond)]
      rfl
  refine List.Pairwise.sublist ?_ (indices ▸ List.pairwise_lt_range)
  exact List.filter_sublist.map Block.index

theorem group_listed (table : BlockTable) (path : Path) : table.group path.reverse =
    (table.blocks.toList.filter fun block => !(block.fixedBits path.reverse).isEmpty).map fun block =>
      (block.index, block.left path) := by
  unfold group
  induction table.blocks.toList with
  | nil => rfl
  | cons block rest ih =>
      cases fixed : block.fixedBits path.reverse with
      | nil => simpa [fixed] using ih
      | cons first others => simpa [fixed, Block.left] using ih

theorem group_mem (table : BlockTable) (numbered : table.Numbered) (path : Path) (once : (path.map (·.1)).Nodup)
    (k : Nat) (values : List Nat) : (k, values) ∈ table.group path.reverse ↔
      ∃ block, table.blocks[k]? = some block ∧ values = block.left path ∧
        ∃ v ∈ block.vars, ∃ value, (v, value) ∈ path := by
  rw [group_listed, List.mem_map]
  have placed := table.numbered_mem numbered
  constructor
  · rintro ⟨block, member, same⟩
    obtain ⟨rfl, rfl⟩ := Prod.mk.inj same
    obtain ⟨listed, fixed⟩ := List.mem_filter.mp member
    refine ⟨block, (placed block).mp listed, rfl, (block.fixed_nonempty path once).mp ?_⟩
    simpa using fixed
  · rintro ⟨block, listed, rfl, tested⟩
    have same := numbered.index k block listed
    refine ⟨block, List.mem_filter.mpr ⟨(placed block).mpr (same ▸ listed), ?_⟩, by rw [same]⟩
    simpa using (block.fixed_nonempty path once).mpr tested

theorem group_ascending (table : BlockTable) (numbered : table.Numbered) (path : Path) :
    ((table.group path.reverse).map (·.1)).Pairwise (· < ·) := by
  rw [group_listed, List.map_map]
  exact table.numbered_ascending numbered _

theorem group_renders (table : BlockTable) (numbered : table.Numbered) (path : Path)
    (once : (path.map (·.1)).Nodup) : table.Renders path (table.group path.reverse) := by
  have cells := table.group_mem numbered path once
  constructor
  case order => exact table.group_ascending numbered path
  case listed =>
    intro k
    rw [List.mem_map]
    constructor
    · rintro ⟨⟨k, values⟩, member, rfl⟩
      obtain ⟨block, listed, _, tested⟩ := (cells k values).mp member
      exact ⟨block, listed, tested⟩
    · rintro ⟨block, listed, tested⟩
      exact ⟨(k, block.left path), (cells k _).mpr ⟨block, listed, rfl, tested⟩, rfl⟩
  case values =>
    intro k values member
    obtain ⟨block, listed, rfl, _⟩ := (cells k values).mp member
    refine ⟨block, listed, List.Pairwise.filter _ List.pairwise_lt_range, fun n inside => ?_⟩
    exact ((block.left_mem path once n).mp inside).1
  case product =>
    intro chosen given apart tuple
    have known : ∀ cell ∈ chosen, cell.2 = cell.1.left path ∧ cell.1.size ≤ 2 ^ cell.1.width := by
      intro cell member
      obtain ⟨k, listed, inside⟩ := given cell member
      obtain ⟨block, same, values, _⟩ := (cells k cell.2).mp inside
      obtain rfl := Option.some.inj (listed.symm.trans same)
      exact ⟨values, numbered.wide k cell.1 listed⟩
    constructor
    · intro inside
      have each := (List.forall₂_and_left chosen tuple).mpr ⟨known, inside⟩
      have allowed : List.Forall₂ (fun cell n => n < cell.1.size ∧ n < 2 ^ cell.1.width ∧ cell.1.Allows path n)
          chosen tuple := by
        refine each.imp fun cell n ⟨⟨values, wide⟩, member⟩ => ?_
        obtain ⟨less, allows⟩ := (cell.1.left_mem path once n).mp (values ▸ member)
        exact ⟨less, Nat.lt_of_lt_of_le less wide, allows⟩
      obtain ⟨env, along, codes⟩ := allowed_together path once (chosen.map (·.1)) tuple
        (by rwa [List.flatMap_map]) (List.forall₂_map_left_iff.mpr (allowed.imp fun _ _ facts => facts.2))
      exact ⟨allowed.imp fun _ _ facts => facts.1, env, along, by rwa [List.map_map] at codes⟩
    · rintro ⟨below, env, along, rfl⟩
      rw [List.forall₂_map_right_iff, List.forall₂_same] at below ⊢
      intro cell member
      rw [(known cell member).1]
      exact (cell.1.left_mem path once _).mpr ⟨below cell member, cell.1.code_allowed path env along⟩

end BlockTable

theorem Printout.offer_run {σ : Type} (write : σ → String → Bool × σ) (text : String) (sink : σ)
    (offered : List String) : offer write text ⟨sink, offered⟩ =
      if (write sink text).1 then .ok () ⟨(write sink text).2, offered⟩
      else .error (.refused .sinkFull) ⟨(write sink text).2, offered⟩ := by
  unfold offer
  cases written : write sink text with
  | mk took after => cases took <;> simp only [written] <;> rfl

theorem Printout.offer_taken {σ : Type} (write : σ → String → Bool × σ)
    (accepts : ∀ sink text, (write sink text).1 = true) (text : String) (sink : σ) (offered : List String) :
    offer write text ⟨sink, offered⟩ = .ok () ⟨(write sink text).2, offered⟩ := by
  rw [offer_run, if_pos (accepts sink text)]

theorem Printout.offer_all {σ : Type} (write : σ → String → Bool × σ)
    (accepts : ∀ sink text, (write sink text).1 = true) (texts : List String) (sink : σ) (offered : List String) :
    texts.forM (offerGroup write) ⟨sink, offered⟩ =
      .ok () ⟨texts.foldl (fun sink text => (write sink text).2) sink, texts.reverse ++ offered⟩ := by
  induction texts generalizing sink offered with
  | nil => rfl
  | cons text rest ih =>
      have taken : offerGroup write text ⟨sink, offered⟩ = .ok () ⟨(write sink text).2, text :: offered⟩ :=
        offer_taken write accepts text sink (text :: offered)
      have step : (text :: rest).forM (offerGroup write) ⟨sink, offered⟩ =
          rest.forM (offerGroup write) ⟨(write sink text).2, text :: offered⟩ := by
        simp only [List.forM_eq_forM, List.forM_cons, bind, EStateM.bind, taken]
      rw [step, ih, List.foldl_cons, List.reverse_cons, List.append_assoc]
      rfl

def Said.text : Said → Option String
  | .told (.printed (.ok ()) text) => some text
  | _ => none

namespace Workspace

structure Prints (ws : Workspace) (m t : Nat) (f : Ref) (texts : List String) : Prop where
  taken : ∀ {σ : Type} (write : σ → String → Bool × σ) (sink : σ), (∀ sink text, (write sink text).1 = true) →
    (ws.printing m t write sink f).1 = .ok () ∧
      (ws.printing m t write sink f).2.sink = texts.foldl (fun sink text => (write sink text).2) sink
  said : (ws.turn (.look (.print m t f))).said = .told (.printed (.ok ()) (String.join texts))
  still : (ws.turn (.look (.print m t f))).workspace = ws

theorem prints_taken (ws : Workspace) (m t : Nat) (f : Ref) (texts : List String)
    (taken : ∀ {σ : Type} (write : σ → String → Bool × σ) (sink : σ), (∀ sink text, (write sink text).1 = true) →
      (ws.printing m t write sink f).1 = .ok () ∧
        (ws.printing m t write sink f).2.sink = texts.foldl (fun sink text => (write sink text).2) sink) :
    ws.Prints m t f texts := by
  obtain ⟨done, text⟩ := taken writeText "" fun _ _ => rfl
  refine ⟨taken, ?_, rfl⟩
  simp only [turn, look, done, text]
  rfl

theorem printing_run {σ : Type} (ws : Workspace) (m t : Nat) (store : Store) (table : BlockTable)
    (found : ws.stores[m]? = some store) (tabled : ws.tables[t]? = some table) (write : σ → String → Bool × σ)
    (sink : σ) (f : Ref) (printout : Printout σ)
    (run : table.print store write f ⟨sink, []⟩ = .ok () printout) :
    ws.printing m t write sink f = (.ok (), printout) := by
  simp only [printing, Workspace.table, Workspace.store, found, tabled, run]

theorem print_run {σ : Type} (store : Store) (table : BlockTable) (owned : table.owner = some store.id)
    (write : σ → String → Bool × σ) (f : Ref) : table.print store write f =
      if f.isTerminal then Printout.offer write (if f.isZero then "F" else "T")
      else table.printFrom store write store.steps f [] := by
  have mine := table.check_owner_mine store owned
  simp only [BlockTable.print, mine]

theorem print_terminal (ws : Workspace) (m t : Nat) (store : Store) (table : BlockTable)
    (found : ws.stores[m]? = some store) (tabled : ws.tables[t]? = some table)
    (owned : table.owner = some store.id) (f : Ref) (small : f ≤ 1) :
    ws.Prints m t f [if f.isZero then "F" else "T"] := by
  refine prints_taken ws m t f _ fun write sink accepts => ?_
  have run := print_run store table owned write f
  rw [if_pos (show f.isTerminal = true from decide_eq_true small)] at run
  have taken := (congrFun run ⟨sink, []⟩).trans (Printout.offer_taken write accepts _ sink [])
  rw [printing_run ws m t store table found tabled write sink f _ taken]
  exact ⟨rfl, rfl⟩

theorem print_paths (ws : Workspace) (m t : Nat) (store : Store) (sound : store.Sound) (table : BlockTable)
    (found : ws.stores[m]? = some store) (tabled : ws.tables[t]? = some table)
    (owned : table.owner = some store.id) (f : Ref) (large : 2 ≤ f) (live : store.Live f) :
    ws.Prints m t f ((store.paths f).map fun path => groupText (table.group path.reverse)) := by
  refine prints_taken ws m t f _ fun write sink accepts => ?_
  have run := print_run store table owned write f
  rw [Ref.terminal_false f large, if_neg Bool.false_ne_true, table.print_from_paths store sound write f live] at run
  have taken := (congrFun run ⟨sink, []⟩).trans (Printout.offer_all write accepts _ sink [])
  rw [printing_run ws m t store table found tabled write sink f _ taken]
  exact ⟨rfl, rfl⟩

end Workspace

structure Covers (store : Store) (table : BlockTable) (f : Ref) (printed : List (Path × List (Nat × List Nat))) :
    Prop where
  once : (printed.map (·.1)).Nodup
  paths : ∀ path, path ∈ printed.map (·.1) ↔ store.Leads f path
  assigned : ∀ env, printed.countP (fun (path, _) => path.agrees env) = (store.eval f env).toNat
  rendered : ∀ path group, (path, group) ∈ printed → table.Renders path group

theorem groups_cover (store : Store) (sound : store.Sound) (table : BlockTable) (numbered : table.Numbered) (f : Ref)
    (live : store.Live f) :
    Covers store table f ((store.paths f).map fun path => (path, table.group path.reverse)) := by
  have firsts : ((store.paths f).map fun path => (path, table.group path.reverse)).map (·.1) = store.paths f := by
    rw [List.map_map]
    exact List.map_id _
  constructor
  case once =>
    rw [firsts]
    exact store.paths_nodup sound f live
  case paths =>
    rw [firsts]
    exact store.paths_lead sound f live
  case assigned =>
    intro env
    rw [List.countP_map]
    exact store.paths_count sound env f live
  case rendered =>
    intro path group member
    obtain ⟨path, inside, same⟩ := List.mem_map.mp member
    obtain ⟨rfl, rfl⟩ := Prod.mk.inj same
    have leads := (store.paths_lead sound f live path).mp inside
    exact table.group_renders numbered path (store.leads_once sound f live path leads)

namespace Workspace

theorem reachable_numbered (ws : Workspace) (reachable : ws.Reachable) (t : Nat) (table : BlockTable)
    (tabled : ws.tables[t]? = some table) : table.Numbered := by
  have shaped := reachable_shaped ws reachable t table tabled
  refine ⟨fun i block listed => (shaped i block listed).1, fun i block listed => ?_⟩
  obtain ⟨_, _, _, _, _, shape⟩ := shaped i block listed
  exact shape.wide

theorem print_covers (ws : Workspace) (reachable : ws.Reachable) (m t : Nat) (store : Store) (table : BlockTable)
    (found : ws.stores[m]? = some store) (tabled : ws.tables[t]? = some table)
    (owned : table.owner = some store.id) :
    ws.Prints m t 0 ["F"] ∧ ws.Prints m t 1 ["T"] ∧
      ∀ f, 2 ≤ f → store.Live f → ∃ printed, Covers store table f printed ∧
        ws.Prints m t f (printed.map fun (_, group) => groupText group) := by
  have sound := reachable_sound ws reachable m store found
  refine ⟨print_terminal ws m t store table found tabled owned 0 (Nat.zero_le 1),
    print_terminal ws m t store table found tabled owned 1 (Nat.le_refl 1), fun f large live => ?_⟩
  refine ⟨_, groups_cover store sound table (reachable_numbered ws reachable t table tabled) f live, ?_⟩
  rw [List.map_map]
  exact print_paths ws m t store sound table found tabled owned f large live

-- The legal values of a block of three, next to the block that overlaps it.
theorem ternary_printed :
    ∃ (ws : Workspace) (store : Store) (table : BlockTable) (printed : List (Path × List (Nat × List Nat))),
      ws = empty.run [.newStore {}, .newTable, .extend 0 0 [3, 2], .overlap 0 0 0 1, .encode 0 0 (.legal 0)] ∧
      ws.stores[0]? = some store ∧ ws.tables[0]? = some table ∧ table.owner = some store.id ∧ store.Live 9 ∧
      Covers store table 9 printed ∧
      String.join (printed.map fun (_, group) => groupText group) = "<0:0/1, 2:0/1/2/3><0:2, 2:4/5>" := by
  obtain ⟨ws, built⟩ : ∃ ws, ws = empty.run [.newStore {}, .newTable, .extend 0 0 [3, 2], .overlap 0 0 0 1,
    .encode 0 0 (.legal 0)] := ⟨_, rfl⟩
  have kept : ws.stores[0]?.any (fun store => decide (store.Live 9 ∧ store.id = 1)) = true := by
    rw [built]
    decide +kernel
  have bound : ws.tables[0]?.any (fun table => decide (table.owner = some 1)) = true := by
    rw [built]
    decide +kernel
  have written : (ws.turn (.look (.print 0 0 9))).said.text = some "<0:0/1, 2:0/1/2/3><0:2, 2:4/5>" := by
    rw [built]
    decide +kernel
  obtain ⟨store, found, known⟩ := (Option.any_eq_true _ _).mp kept
  obtain ⟨live, id⟩ := of_decide_eq_true known
  obtain ⟨table, tabled, known⟩ := (Option.any_eq_true _ _).mp bound
  have owned : table.owner = some store.id := id ▸ of_decide_eq_true known
  obtain ⟨_, _, every⟩ := print_covers ws ⟨_, built.symm⟩ 0 0 store table found tabled owned
  obtain ⟨printed, covers, prints⟩ := every 9 (by decide) live
  rw [prints.said] at written
  exact ⟨ws, store, table, printed, built, found, tabled, owned, live, covers, Option.some.inj written⟩

end Workspace
end DomainDiagram
