import DomainDiagram.Proofs.Dependence
import DomainDiagram.Proofs.Lineage
import DomainDiagram.Proofs.Printed
import DomainDiagram.Proofs.Ranges

set_option autoImplicit false

namespace DomainDiagram

open Store

theorem Store.depends_conjunction (store : Store) (f : Ref) (vars : List Var)
    (conjunction : ∀ env, store.eval f env = vars.all env) (v : Var) : store.Depends f v ↔ v ∈ vars := by
  constructor
  · intro depends
    by_contra outside
    refine (depends_not store f v).mpr (fun env value => ?_) depends
    rw [conjunction, conjunction, Var.all_unread vars v outside]
  · intro member
    refine ⟨fun _ => true, ?_⟩
    have all : vars.all (fun _ => true) = true := List.all_eq_true.mpr fun _ _ => rfl
    have broken : vars.all (Function.update (fun _ => true) v false) = false :=
      List.all_eq_false.mpr ⟨v, member, by rw [Function.update_self]; decide⟩
    rw [conjunction, conjunction, all, Bool.not_true, broken]
    decide

namespace BlockTable

open DomainDiagram.Action

def Has (table : BlockTable) (k : Nat) (v : Var) : Prop :=
  ∃ block, table.blocks[k]? = some block ∧ v ∈ block.vars

def Joint (table : BlockTable) (indices : List Nat) (v : Var) : Prop := ∃ i ∈ indices, table.Has i v

abbrev Named (table : BlockTable) : List Nat → List Block → Prop :=
  List.Forall₂ fun i block => table.blocks[i]? = some block

theorem named_exist (table : BlockTable) (indices : List Nat) (valid : ∀ i ∈ indices, i < table.size) :
    ∃ blocks, table.Named indices blocks := by
  induction indices with
  | nil => exact ⟨[], .nil⟩
  | cons i rest ih =>
      obtain ⟨inside, others⟩ := List.forall_mem_cons.mp valid
      obtain ⟨blocks, named⟩ := ih others
      exact ⟨table.blocks[i] :: blocks, .cons (Array.getElem?_eq_getElem inside) named⟩

theorem named_listed (table : BlockTable) (indices : List Nat) (blocks : List Block)
    (named : table.Named indices blocks) :
    ∀ block ∈ blocks, ∃ i : Nat, table.blocks[i]? = some block := by
  induction named with
  | nil => exact nofun
  | cons first _ ih => exact List.forall_mem_cons.mpr ⟨⟨_, first⟩, ih⟩

theorem named_joint (table : BlockTable) (indices : List Nat) (blocks : List Block) (named : table.Named indices blocks)
    (v : Var) : v ∈ blocks.flatMap (·.vars) ↔ table.Joint indices v := by
  induction named with
  | nil => simp [Joint]
  | @cons i block rest others first _ ih =>
      have here : table.Has i v ↔ v ∈ block.vars := by simp [Has, first]
      rw [List.flatMap_cons, List.mem_append, ih, ← here]
      simp [Joint]

theorem plan_union_named (table : BlockTable) (indices : List Nat) (blocks : List Block) (store : Store)
    (owned : table.owner = some store.id) (named : table.Named indices blocks) :
    table.planUnion indices store = .ok (blocks.map (·.varset)) := by
  have mine := check_owner_mine table store owned
  have read : indices.mapM table.varset = .ok (blocks.map (·.varset)) := by
    induction named with
    | nil => rfl
    | cons first _ ih =>
        rw [List.mapM_cons, ih]
        simp only [varset, BlockTable.block, first, Functor.map, Except.map, bind, Except.bind, pure, Except.pure,
          List.map_cons]
  simp only [planUnion, mine, read, bind, Except.bind]

theorem union_spells (book : Book) (table : BlockTable) (indices : List Nat) (blocks : List Block) (store : Store)
    (coherent : store.Coherent book) (room : store.Spares 1) (owned : table.owner = some store.id)
    (named : table.Named indices blocks) (sets : ∀ block ∈ blocks, store.Stands block.varset block.vars.all) :
    Delivers book (table.varsetOf indices) store (blocks.flatMap (·.vars)).all := by
  have planned := plan_union_named table indices blocks store owned named
  have live : ∀ set ∈ blocks.map (·.varset), store.Live set :=
    List.forall_mem_map.mpr fun block member => (sets block member).1
  obtain ⟨r, next, done, kept, tally, rLive, value⟩ := carries_delivers book _ store _ 1 room
    (union_ends book store (blocks.map (·.varset)) coherent.sound live 1 _ store (carries_refl book store coherent)
      (stands_true store))
  refine ⟨r, next, ?_, kept, tally, rLive, fun env => ?_⟩
  · simp only [varsetOf, Request.afterCheck, planned, Request.perform, done]
  · have each : (blocks.all fun block => store.eval block.varset env) = blocks.all fun block => block.vars.all env := by
      rw [Bool.eq_iff_iff, List.all_eq_true, List.all_eq_true]
      exact forall₂_congr fun block member => by rw [(sets block member).2]
    simp only [value, Bool.and_true, List.all_map, List.all_flatMap]
    exact each

theorem blocks_of_depends (table : BlockTable) (numbered : table.Numbered) (store : Store) (sound : store.Sound)
    (owned : table.owner = some store.id) (f : Ref) (live : store.Live f) :
    ∃ ks, table.blocksOf f store = .ok ks ∧ ks.Pairwise (· < ·) ∧
      ∀ k, k ∈ ks ↔ ∃ v, table.Has k v ∧ store.Depends f v := by
  have mine := check_owner_mine table store owned
  obtain ⟨vars, read, _, depended⟩ := support_depends store sound f live
  let tests := fun block : Block => block.vars.any (Std.TreeSet.ofList vars).contains
  have tested : ∀ block, tests block = true ↔ ∃ v ∈ block.vars, store.Depends f v := by
    intro block
    simp only [tests, List.any_eq_true, Std.TreeSet.contains_ofList, List.contains_iff_mem, depended]
  refine ⟨(table.blocks.toList.filter tests).map (·.index), ?_, table.numbered_ascending numbered tests, fun k => ?_⟩
  · simp only [blocksOf, mine, read, tests]
  · rw [List.mem_map]
    constructor
    · rintro ⟨block, member, rfl⟩
      obtain ⟨inside, hit⟩ := List.mem_filter.mp member
      obtain ⟨v, own, depends⟩ := (tested block).mp hit
      exact ⟨v, ⟨block, (table.numbered_mem numbered block).mp inside, own⟩, depends⟩
    · rintro ⟨v, ⟨block, listed, own⟩, depends⟩
      have same := numbered.index k block listed
      refine ⟨block, List.mem_filter.mpr ⟨(table.numbered_mem numbered block).mpr (same ▸ listed), ?_⟩, same⟩
      exact (tested block).mpr ⟨v, own, depends⟩

end BlockTable

-- Without overlaps no two blocks share a variable, and each has one.
theorem plain_meets (ws : Workspace) (journal : Journal) (fair : Fair ws journal) (t : Nat) (table : BlockTable)
    (tabled : ws.tables[t]? = some table) (plain : ∀ k left right, ¬ journal.Overlapped t k left right)
    (indices : List Nat) (valid : ∀ i ∈ indices, i < table.size) (k : Nat) :
    (∃ v, table.Has k v ∧ table.Joint indices v) ↔ k ∈ indices := by
  have made : ∀ (i : Nat) (block : Block), table.blocks[i]? = some block → journal.Extended t i := by
    intro i block listed
    rcases (fair_traced ws journal fair).2.origin t i table block tabled listed with
      extended | ⟨left, right, overlapped⟩
    · exact extended
    · exact absurd overlapped (plain i left right)
  have laid := (fair_accounted ws journal fair).laid.laid t table tabled
  constructor
  · rintro ⟨v, ⟨block, listed, own⟩, i, member, other, there, shared⟩
    by_contra absent
    have different : k ≠ i := fun same => absent (same ▸ member)
    exact laid.apart k i block other (made k block listed) (made i other there) different listed there own shared
  · intro member
    have inside : k < table.blocks.size := valid k member
    have listed : table.blocks[k]? = some table.blocks[k] := Array.getElem?_eq_getElem inside
    obtain ⟨block, here, _, width⟩ := laid.standing k (made k _ listed)
    have some : block.vars ≠ [] := by
      rintro none
      rw [Block.width, none, List.length_nil, bitWidth] at width
      exact absurd width (Nat.succ_ne_zero _).symm
    obtain ⟨v, own⟩ := List.exists_mem_of_ne_nil _ some
    exact ⟨v, ⟨block, here, own⟩, k, member, block, here, own⟩

namespace Workspace

structure Scans (ws : Workspace) (m t : Nat) (table : BlockTable) (f : Ref) (reads : Var → Prop) (ks : List Nat) :
    Prop where
  told : (ws.look (.blocksOf m t f)).1 = .fact (.ok (.indices ks))
  ascending : ks.Pairwise (· < ·)
  hits : ∀ k, k ∈ ks ↔ ∃ v, table.Has k v ∧ reads v

theorem scans_depends (ws : Workspace) (reachable : ws.Reachable) (m t : Nat) (store : Store) (table : BlockTable)
    (found : ws.stores[m]? = some store) (tabled : ws.tables[t]? = some table) (owned : table.owner = some store.id)
    (f : Ref) (live : store.Live f) : ∃ ks, ws.Scans m t table f (store.Depends f) ks := by
  have sound := reachable_sound ws reachable m store found
  have numbered := reachable_numbered ws reachable t table tabled
  obtain ⟨ks, read, ascending, hits⟩ := table.blocks_of_depends numbered store sound owned f live
  refine ⟨ks, ?_, ascending, hits⟩
  simp only [look, factOf, Workspace.table, Workspace.store, tabled, found, read]
  rfl

theorem supplies_cube (ws : Workspace) (reachable : ws.Reachable) (m : Nat) (store : Store)
    (found : ws.stores[m]? = some store) (vars : List Var) (allocated : ∀ v ∈ vars, 0 < v ∧ v ≤ store.numVars) :
    ws.Supplies m (.construct m (.cube vars)) vars.all := by
  obtain ⟨book, _, trusted⟩ := reachable_trusted ws reachable
  have coherent := trusted m store found
  have delivers := Action.gives_delivers book _ store _ (Action.gives_cube book store coherent vars allocated)
  exact delivers_supplies ws book m _ store _ _ found coherent.sound delivers fun r next done =>
    construct_reply ws m store next _ r found done

theorem engaged_union (ws : Workspace) (m t : Nat) (table : BlockTable) {spare : Nat}
    (engaged : ws.Engaged m t table spare) (enough : 1 ≤ spare)
    (sets : ∀ (i : Nat) (block : Block), table.blocks[i]? = some block → ws.Means m block.varset block.vars.all)
    (indices : List Nat) (blocks : List Block) (named : table.Named indices blocks) :
    ws.Supplies m (.encode m t (.varset indices)) (blocks.flatMap (·.vars)).all := by
  apply engaged_encodes ws m t table engaged
  intro book store found coherent room owned
  have one := store.spares_fewer spare 1 enough room
  refine BlockTable.union_spells book table indices blocks store coherent one owned named fun block member => ?_
  obtain ⟨i, listed⟩ := table.named_listed indices blocks named block member
  exact means_stands ws m store found block.varset _ (sets i block listed)

structure Unites (ws : Workspace) (journal : Journal) (m t : Nat) (table : BlockTable) (indices : List Nat) (r : Ref)
    (vars : List Var) : Prop where
  means : ws.Means m r vars.all
  ascending : vars.Pairwise (· < ·)
  union : ∀ v, v ∈ vars ↔ table.Joint indices v
  members : (ws.look (.ask m (.members r))).1 = .fact (.ok (.vars vars))
  cube : ∃ last, ws.Serves [(.construct m (.cube vars), r)] last
  again : ∀ other, (∀ i, i ∈ other ↔ i ∈ indices) → ∃ last, ws.Serves [(.encode m t (.varset other), r)] last
  single : ∀ i, indices = [i] → table.varset i = .ok r
  scanned : ∃ ks, ws.Scans m t table r (table.Joint indices) ks ∧
    ((∀ k left right, ¬ journal.Overlapped t k left right) → ∀ k, k ∈ ks ↔ k ∈ indices)

theorem union_unites (ws : Workspace) (m t : Nat) (table : BlockTable) {spare : Nat}
    (engaged : ws.Engaged m t table spare) (enough : 1 ≤ spare)
    (sets : ∀ (i : Nat) (block : Block), table.blocks[i]? = some block → ws.Means m block.varset block.vars.all)
    (journal : Journal) (indices : List Nat)
    (plain : (∀ k left right, ¬ journal.Overlapped t k left right) →
      ∀ k, (∃ v, table.Has k v ∧ table.Joint indices v) ↔ k ∈ indices)
    (valid : ∀ i ∈ indices, i < table.size) (blocks : List Block) (named : table.Named indices blocks) (r : Ref)
    (means : ws.Means m r (blocks.flatMap (·.vars)).all) :
    ws.Unites journal m t table indices r (Var.sorted (blocks.flatMap (·.vars))) := by
  obtain ⟨store, found, owned⟩ := engaged.store
  obtain ⟨live, value⟩ := means_stands ws m store found r _ means
  have sound := reachable_sound ws engaged.reachable m store found
  have sorted := Var.sorted_mem (blocks.flatMap (·.vars))
  have joint := table.named_joint indices blocks named
  have meaning : ws.Means m r (Var.sorted (blocks.flatMap (·.vars))).all :=
    means_congr ws m r _ _ (Var.all_same _ _ fun v => (sorted v).symm) means
  constructor
  case means => exact meaning
  case ascending => exact Var.sorted_ascending _
  case union => exact fun v => (sorted v).trans (joint v)
  case members =>
    have listed := conjunction_members store sound r live _ value
    rw [ask_told ws m _ store found, Store.answer, members_ok store sound r live _ listed, Store.told]
  case cube =>
    have allocated : ∀ v ∈ Var.sorted (blocks.flatMap (·.vars)), 0 < v ∧ v ≤ store.numVars := by
      intro v member
      obtain ⟨block, inside, own⟩ := List.mem_flatMap.mp ((sorted v).mp member)
      obtain ⟨i, listed⟩ := table.named_listed indices blocks named block inside
      exact (engaged_shaped ws m t table engaged i block listed store found).allocated v own
    exact engaged_known ws m t table engaged _ _
      (supplies_cube ws engaged.reachable m store found _ allocated) r meaning
  case again =>
    intro other same
    obtain ⟨others, otherNamed⟩ := table.named_exist other fun i member => valid i ((same i).mp member)
    have supplies := engaged_union ws m t table engaged enough sets other others otherNamed
    refine engaged_known ws m t table engaged _ _ supplies r
      (means_congr ws m r _ _ (Var.all_same _ _ fun v => ?_) means)
    rw [joint, table.named_joint other others otherNamed, BlockTable.Joint, BlockTable.Joint]
    simp only [same]
  case single =>
    rintro i rfl
    obtain ⟨block, rest, listed, none, rfl⟩ := List.forall₂_cons_left_iff.mp named
    obtain rfl := List.forall₂_nil_left_iff.mp none
    rw [List.flatMap_singleton] at means
    have same := means_same ws engaged.reachable m r block.varset _ means (sets i block listed)
    rw [same, BlockTable.varset, BlockTable.block, listed]
    rfl
  case scanned =>
    obtain ⟨ks, scans⟩ := scans_depends ws engaged.reachable m t store table found engaged.tabled owned r live
    have hits : ∀ k, k ∈ ks ↔ ∃ v, table.Has k v ∧ table.Joint indices v := fun k =>
      (scans.hits k).trans (exists_congr fun v => and_congr_right fun _ =>
        (depends_conjunction store r _ value v).trans (joint v))
    exact ⟨ks, ⟨scans.told, scans.ascending, hits⟩, fun free k => (hits k).trans (plain free k)⟩

theorem varsets_agree (ws : Workspace) (journal : Journal) (fair : Fair ws journal) (m t : Nat) (store : Store)
    (table : BlockTable) (found : ws.stores[m]? = some store) (room : store.Roomy)
    (tabled : ws.tables[t]? = some table) (owned : table.owner = some store.id) :
    (∀ f, store.Live f → ∃ ks, ws.Scans m t table f (store.Depends f) ks) ∧
      ∀ indices, (∀ i ∈ indices, i < table.size) → ∃ r later vars,
        ws.Serves [(.encode m t (.varset indices), r)] later ∧ later.Unites journal m t table indices r vars := by
  have reachable := fair_reachable ws journal fair
  refine ⟨scans_depends ws reachable m t store table found tabled owned, fun indices valid => ?_⟩
  have engaged := ws.engaged_found reachable m t store table found 3 room tabled owned
  have sets := ws.fair_varset journal fair m t table engaged
  obtain ⟨blocks, named⟩ := table.named_exist indices valid
  have supplies := ws.engaged_union m t table engaged (by decide) sets indices blocks named
  obtain ⟨r, later, answer, onward, still, means⟩ := ws.engaged_serves m t table engaged _ _ supplies
  exact ⟨r, later, _, answer, later.union_unites m t table still (by decide)
    (fun i block listed => onward.means _ _ (sets i block listed)) journal indices
    (fun plain => plain_meets ws journal fair t table tabled plain indices valid) valid blocks named r means⟩

-- In the first table a block overlaps two others; in the second there is no overlap.
theorem overlapped_varsets :
    ∃ (ws : Workspace) (journal : Journal) (store : Store) (first second : BlockTable),
      ws = empty.run [.newStore {}, .newTable, .extend 0 0 [3, 4], .overlap 0 0 1 0, .newTable,
        .extend 0 1 [2, 5, 2]] ∧
      Fair ws journal ∧ ws.stores[0]? = some store ∧ store.Roomy ∧ ws.tables[0]? = some first ∧
      first.owner = some store.id ∧ ws.tables[1]? = some second ∧ second.owner = some store.id ∧
      (∀ i ∈ [0, 0], i < first.size) ∧ (∀ i ∈ [2, 0, 2], i < second.size) ∧
      (∀ k left right, ¬ journal.Overlapped 1 k left right) ∧ store.Live 7 ∧
      (∃ ks, ws.Scans 0 0 first 7 (store.Depends 7) ks) ∧
      (∃ r later vars, ws.Serves [(.encode 0 0 (.varset [0, 0]), r)] later ∧
        later.Unites journal 0 0 first [0, 0] r vars) ∧
      ∃ r later, ws.Serves [(.encode 0 1 (.varset [2, 0, 2]), r)] later ∧
        (later.look (.blocksOf 0 1 r)).1 = .fact (.ok (.indices [0, 2])) := by
  obtain ⟨ws, built⟩ : ∃ ws, ws = empty.run [.newStore {}, .newTable, .extend 0 0 [3, 4], .overlap 0 0 1 0,
    .newTable, .extend 0 1 [2, 5, 2]] := ⟨_, rfl⟩
  obtain ⟨journal, kept⟩ : ∃ journal, journal = empty.record [] [.newStore {}, .newTable, .extend 0 0 [3, 4],
    .overlap 0 0 1 0, .newTable, .extend 0 1 [2, 5, 2]] := ⟨_, rfl⟩
  have fair : Fair ws journal := by
    rw [built, kept]
    exact fair_record .empty [] .start _ (by simp [Journal.Allows])
  have plain : ∀ k left right, ¬ journal.Overlapped 1 k left right := by
    intro k left right
    simp [kept, record, Journal.Overlapped, Entry.Joins]
  have counts : ws.stores[0]?.any (fun store =>
      decide (store.id = 1 ∧ (∀ count ∈ store.counts.toList, count ≤ 9) ∧ store.Live 7)) = true := by
    rw [built]
    decide +kernel
  have sizes : ∀ t ∈ [0, 1], ws.tables[t]?.any (fun table =>
      decide (table.owner = some 1 ∧ table.size = 3)) = true := by
    rw [built]
    decide +kernel
  obtain ⟨store, found, known⟩ := (Option.any_eq_true _ _).mp counts
  obtain ⟨id, small, live⟩ := of_decide_eq_true known
  have room := store.roomy_of_counts 9 (by decide) small
  obtain ⟨first, firstTabled, known⟩ := (Option.any_eq_true _ _).mp (sizes 0 (by decide))
  obtain ⟨firstOwned, firstSize⟩ := of_decide_eq_true known
  obtain ⟨second, secondTabled, known⟩ := (Option.any_eq_true _ _).mp (sizes 1 (by decide))
  obtain ⟨secondOwned, secondSize⟩ := of_decide_eq_true known
  have firstValid : ∀ i ∈ [0, 0], i < first.size := by simp [firstSize]
  have secondValid : ∀ i ∈ [2, 0, 2], i < second.size := by simp [secondSize]
  obtain ⟨scans, unites⟩ := varsets_agree ws journal fair 0 0 store first found room firstTabled (id ▸ firstOwned)
  obtain ⟨r, later, vars, answer, united⟩ := (varsets_agree ws journal fair 0 1 store second found room secondTabled
    (id ▸ secondOwned)).2 [2, 0, 2] secondValid
  obtain ⟨ks, scanned, same⟩ := united.scanned
  have sorted : ks = [0, 2] := by
    refine scanned.ascending.eq_of_mem_iff (by decide) fun k => (same plain k).trans ?_
    simp only [List.mem_cons, List.not_mem_nil, or_false]
    lia
  exact ⟨ws, journal, store, first, second, built, fair, found, room, firstTabled, id ▸ firstOwned, secondTabled,
    id ▸ secondOwned, firstValid, secondValid, plain, live, scans 7 live, unites [0, 0] firstValid, r, later, answer,
    sorted ▸ scanned.told⟩

end Workspace
end DomainDiagram
