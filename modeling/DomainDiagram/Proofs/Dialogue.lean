import DomainDiagram.Proofs.Checks
import DomainDiagram.Proofs.Scripts
import Mathlib.Data.List.Forall2

set_option autoImplicit false

namespace DomainDiagram

open Store

namespace Workspace

inductive Serves : Workspace → List (Command × Ref) → Workspace → Prop where
  | done (ws : Workspace) : Serves ws [] ws
  | turn (ws next later : Workspace) (command : Command) (f : Ref) (rest : List (Command × Ref))
      (reply : ws.perform command = ⟨.ok (.ref f), [], next⟩) (onward : Serves next rest later) :
      Serves ws ((command, f) :: rest) later

theorem serves_append (ws middle later : Workspace) (first rest : List (Command × Ref))
    (before : ws.Serves first middle) (after : middle.Serves rest later) : ws.Serves (first ++ rest) later := by
  induction before with
  | done ws => exact after
  | turn ws next middle command f others reply _ ih => exact .turn ws next later command f _ reply (ih after)

theorem means_stands (ws : Workspace) (m : Nat) (store : Store) (found : ws.stores[m]? = some store) (f : Ref)
    (fn : (Var → Bool) → Bool) (means : ws.Means m f fn) : store.Stands f fn := by
  obtain ⟨other, here, live, value⟩ := means
  obtain rfl := Option.some.inj (found.symm.trans here)
  exact ⟨live, value⟩

theorem means_congr (ws : Workspace) (m : Nat) (f : Ref) (fn gn : (Var → Bool) → Bool)
    (same : ∀ env, fn env = gn env) (means : ws.Means m f fn) : ws.Means m f gn := by
  obtain ⟨store, found, live, value⟩ := means
  exact ⟨store, found, live, fun env => (value env).trans (same env)⟩

theorem means_constant (ws : Workspace) (m : Nat) (value : Bool) (present : ∃ store, ws.stores[m]? = some store) :
    ws.Means m (Ref.constant value) fun _ => value := by
  obtain ⟨store, found⟩ := present
  have small : Ref.constant value ≤ 1 := by cases value <;> decide
  refine ⟨store, found, .inl small, fun env => ?_⟩
  simp

theorem means_same (ws : Workspace) (reachable : ws.Reachable) (m : Nat) (f g : Ref) (fn : (Var → Bool) → Bool)
    (left : ws.Means m f fn) (right : ws.Means m g fn) : f = g := by
  obtain ⟨store, found, fLive, fValue⟩ := left
  obtain ⟨gLive, gValue⟩ := means_stands ws m store found g fn right
  have sound := reachable_sound ws reachable m store found
  exact (eval_injective store sound f g fLive gLive).mp fun env => (fValue env).trans (gValue env).symm

theorem means_one (ws : Workspace) (reachable : ws.Reachable) (m : Nat) (f : Ref) (fn : (Var → Bool) → Bool)
    (means : ws.Means m f fn) (always : ∀ env, fn env = true) : f = 1 := by
  have present : ∃ store, ws.stores[m]? = some store := by
    obtain ⟨store, found, _⟩ := means
    exact ⟨store, found⟩
  have constant := means_constant ws m true present
  exact means_same ws reachable m f 1 fn means (means_congr ws m 1 _ fn (fun env => (always env).symm) constant)

theorem supplies_disjunction {α : Type} (ws : Workspace) (reachable : ws.Reachable) (m : Nat)
    (present : ∃ store, ws.stores[m]? = some store) (items : List α) (meaning : α → (Var → Bool) → Bool)
    (fs : List Ref) (means : List.Forall₂ (fun item f => ws.Means m f (meaning item)) items fs) :
    ws.Supplies m (.construct m (.disjunction fs)) fun env => items.any fun item => meaning item env := by
  obtain ⟨book, _, trusted⟩ := reachable_trusted ws reachable
  obtain ⟨store, found⟩ := present
  have coherent := trusted m store found
  have stand : List.Forall₂ (fun item f => store.Stands f (meaning item)) items fs :=
    means.imp fun item f => means_stands ws m store found f (meaning item)
  have live : ∀ f ∈ fs, store.Live f := by
    clear means
    induction stand with
    | nil => exact nofun
    | cons first _ ih => exact List.forall_mem_cons.mpr ⟨first.1, ih⟩
  have value : ∀ env, fs.any (store.eval · env) = items.any fun item => meaning item env := by
    intro env
    clear means live
    induction stand with
    | nil => rfl
    | cons first _ ih => rw [List.any_cons, List.any_cons, first.2, ih]
  have delivers := Action.gives_delivers book _ store _ (Action.gives_disjunction book store coherent fs live)
  refine supplies_congr ws m _ _ _ value <|
    delivers_supplies ws book m _ store _ _ found coherent.sound delivers fun r next done => ?_
  exact construct_reply ws m store next _ r found done

-- Table t, which belongs to store m, with room for some holds more in every count.
structure Engaged (ws : Workspace) (m t : Nat) (table : BlockTable) (spare : Nat) : Prop where
  reachable : ws.Reachable
  room : ws.Spares m spare
  store : ∃ store, ws.stores[m]? = some store ∧ table.owner = some store.id
  tabled : ws.tables[t]? = some table

theorem engaged_found (ws : Workspace) (reachable : ws.Reachable) (m t : Nat) (store : Store) (table : BlockTable)
    (found : ws.stores[m]? = some store) (spare : Nat) (room : store.Spares spare) (tabled : ws.tables[t]? = some table)
    (owned : table.owner = some store.id) : ws.Engaged m t table spare := by
  refine ⟨reachable, fun other here => ?_, ⟨store, found, owned⟩, tabled⟩
  exact Option.some.inj (found.symm.trans here) ▸ room

section

variable (ws : Workspace) (m t : Nat) (table : BlockTable) {spare : Nat} (engaged : ws.Engaged m t table spare)

include engaged

theorem engaged_present : ∃ store, ws.stores[m]? = some store := by
  obtain ⟨store, found, _⟩ := engaged.store
  exact ⟨store, found⟩

theorem engaged_onward (later : Workspace) (reachable : later.Reachable) (onward : ws.Onward m later) :
    later.Engaged m t table spare := by
  obtain ⟨store, found, owned⟩ := engaged.store
  obtain ⟨next, there, id, _⟩ := onward.store store found
  have room := onward_spares ws later m spare onward ⟨store, found⟩ engaged.room
  exact ⟨reachable, room, ⟨next, there, id ▸ owned⟩, onward.tables ▸ engaged.tabled⟩

theorem engaged_serves (command : Command) (fn : (Var → Bool) → Bool) (supplies : ws.Supplies m command fn) :
    ∃ r later, ws.Serves [(command, r)] later ∧ ws.Onward m later ∧ later.Engaged m t table spare ∧
      later.Means m r fn := by
  obtain ⟨r, later, reply, onward, means⟩ := supplies_onward ws m command fn supplies
  have reachable : later.Reachable := by
    have after := reachable_perform ws engaged.reachable command
    rwa [reply] at after
  exact ⟨r, later, .turn ws later later command r [] reply (.done later), onward,
    engaged_onward ws m t table engaged later reachable onward, means⟩

theorem engaged_known (command : Command) (fn : (Var → Bool) → Bool) (supplies : ws.Supplies m command fn) (f : Ref)
    (known : ws.Means m f fn) : ∃ later, ws.Serves [(command, f)] later := by
  obtain ⟨r, later, answer, onward, still, means⟩ := engaged_serves ws m t table engaged command fn supplies
  have same : r = f := later.means_same still.reachable m r f fn means (onward.means f fn known)
  exact ⟨later, same ▸ answer⟩

theorem engaged_shaped (index : Nat) (block : Block) (listed : table.blocks[index]? = some block) (store : Store)
    (found : ws.stores[m]? = some store) : block.Shaped store := by
  obtain ⟨own, ownFound, owned⟩ := engaged.store
  obtain rfl := Option.some.inj (found.symm.trans ownFound)
  have mine := table.check_owner_mine store owned
  exact owned_allocated ws engaged.reachable m t store table found engaged.tabled mine index block listed

theorem engaged_encodes (encoding : Encoding) (fn : (Var → Bool) → Bool)
    (delivers : ∀ book store, ws.stores[m]? = some store → store.Coherent book → store.Spares spare →
      table.owner = some store.id → Action.Delivers book (encoding.run table) store fn) :
    ws.Supplies m (.encode m t encoding) fn := by
  obtain ⟨book, _, trusted⟩ := reachable_trusted ws engaged.reachable
  obtain ⟨store, found, owned⟩ := engaged.store
  have coherent := trusted m store found
  have done := delivers book store found coherent (engaged.room store found) owned
  exact delivers_supplies ws book m _ store fn _ found coherent.sound done fun r next ran =>
    encode_reply ws m t encoding store next table r found engaged.tabled ran

theorem engaged_spells (enough : 1 ≤ spare) (index value : Nat) (block : Block)
    (listed : table.blocks[index]? = some block) (small : value ≤ block.size) :
    ws.Supplies m (.encode m t (.value index value)) fun env => decide (block.code env = value % 2 ^ block.width) := by
  apply engaged_encodes ws m t table engaged
  intro book store found coherent room owned
  have shaped := engaged_shaped ws m t table engaged index block listed store found
  have one := store.spares_fewer spare 1 enough room
  exact BlockTable.value_spells book table index value block store coherent one owned listed shaped.allocated small

theorem engaged_value (enough : 1 ≤ spare) (index value : Nat) (block : Block)
    (listed : table.blocks[index]? = some block) (small : value < block.size) :
    ws.Supplies m (.encode m t (.value index value)) fun env => decide (block.code env = value) := by
  have spells := engaged_spells ws m t table engaged enough index value block listed (Nat.le_of_lt small)
  obtain ⟨store, found⟩ := engaged_present ws m t table engaged
  have wide := (engaged_shaped ws m t table engaged index block listed store found).wide
  rwa [Nat.mod_eq_of_lt (Nat.lt_of_lt_of_le small wide)] at spells

end

theorem engaged_pair (ws : Workspace) (m t : Nat) (table : BlockTable) {spare : Nat}
    (engaged : ws.Engaged m t table spare) (enough : 1 ≤ spare) (left right i j : Nat) (a b : Block)
    (first : table.blocks[left]? = some a) (second : table.blocks[right]? = some b) (small : i < a.size)
    (also : j < b.size) : ∃ f g both last,
    ws.Serves [(.encode m t (.value left i), f), (.encode m t (.value right j), g),
      (.construct m (.combine .and f g), both)] last ∧ ws.Onward m last ∧ last.Engaged m t table spare ∧
      last.Means m both fun env => decide (a.code env = i) && decide (b.code env = j) := by
  have spelling := engaged_value ws m t table engaged enough left i a first small
  obtain ⟨f, one, fAnswer, toOne, oneEngaged, fMeans⟩ := engaged_serves ws m t table engaged _ _ spelling
  have spelling := engaged_value one m t table oneEngaged enough right j b second also
  obtain ⟨g, two, gAnswer, toTwo, twoEngaged, gMeans⟩ := engaged_serves one m t table oneEngaged _ _ spelling
  have joins := two.supplies_combine twoEngaged.reachable m .and f g _ _ (toTwo.means f _ fMeans) gMeans
  obtain ⟨both, last, joined, toLast, lastEngaged, means⟩ := engaged_serves two m t table twoEngaged _ _ joins
  refine ⟨f, g, both, last, ?_, ?_, lastEngaged, means⟩
  · exact serves_append ws one last _ _ fAnswer (serves_append one two last _ _ gAnswer joined)
  · exact onward_trans ws one last m toOne (onward_trans one two last m toTwo toLast)

theorem serves_each {α : Type} (m t : Nat) (table : BlockTable) (spare : Nat) (items : List α) (command : α → Command)
    (meaning : α → (Var → Bool) → Bool)
    (single : ∀ item ∈ items, ∀ ws : Workspace, ws.Engaged m t table spare →
      ws.Supplies m (command item) (meaning item))
    (ws : Workspace) (engaged : ws.Engaged m t table spare) :
    ∃ fs later, ws.Serves ((items.map command).zip fs) later ∧ ws.Onward m later ∧ later.Engaged m t table spare ∧
      List.Forall₂ (fun item f => later.Means m f (meaning item)) items fs := by
  induction items generalizing ws with
  | nil => exact ⟨[], ws, .done ws, onward_refl ws m, engaged, .nil⟩
  | cons item rest ih =>
      have supplies := single item List.mem_cons_self ws engaged
      obtain ⟨f, next, first, onward, nextEngaged, means⟩ := engaged_serves ws m t table engaged _ _ supplies
      have others : ∀ other ∈ rest, ∀ ws : Workspace, ws.Engaged m t table spare →
          ws.Supplies m (command other) (meaning other) :=
        fun other member => single other (List.mem_cons_of_mem item member)
      obtain ⟨fs, later, answers, further, laterEngaged, known⟩ := ih others next nextEngaged
      refine ⟨f :: fs, later, ?_, onward_trans ws next later m onward further, laterEngaged, ?_⟩
      · exact serves_append ws next later _ _ first answers
      · exact .cons (further.means f _ means) known

-- A store with low counts and the blocks of a table that belongs to it, as they can be read off a run.
theorem laid_out (ws : Workspace) (m t id : Nat) (shapes : List (List Var × Nat))
    (kept : ws.stores[m]?.any (fun store =>
      decide (store.id = id ∧ ∀ count ∈ store.counts.toList, count ≤ 9)) = true)
    (laid : ws.tables[t]?.any (fun table => decide (table.owner = some id ∧
      table.blocks.toList.map (fun block => (block.vars, block.size)) = shapes)) = true) :
    ∃ store table, ws.stores[m]? = some store ∧ store.Roomy ∧ ws.tables[t]? = some table ∧
      table.owner = some store.id ∧ ∀ (k : Nat) (vars : List Var) (size : Nat), shapes[k]? = some (vars, size) →
        ∃ block : Block, table.blocks[k]? = some block ∧ block.vars = vars ∧ block.size = size := by
  obtain ⟨store, found, known⟩ := (Option.any_eq_true _ _).mp kept
  obtain ⟨same, counts⟩ := of_decide_eq_true known
  obtain ⟨table, tabled, known⟩ := (Option.any_eq_true _ _).mp laid
  obtain ⟨owner, rfl⟩ := of_decide_eq_true known
  have room := store.roomy_of_counts 9 (by decide) counts
  refine ⟨store, table, found, room, tabled, same ▸ owner, fun k vars size shape => ?_⟩
  rw [List.getElem?_map, Array.getElem?_toList] at shape
  obtain ⟨block, listed, described⟩ := Option.map_eq_some_iff.mp shape
  exact ⟨block, listed, congrArg Prod.fst described, congrArg Prod.snd described⟩

end Workspace
end DomainDiagram
