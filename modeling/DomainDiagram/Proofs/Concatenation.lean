import DomainDiagram.Proofs.Ranges
import DomainDiagram.Proofs.Undisturbed
import DomainDiagram.Proofs.Values

set_option autoImplicit false

namespace DomainDiagram

open Store

namespace Block

variable (a b block : Block) (vars : block.vars = a.vars ++ b.vars)

include vars

theorem width_append : block.width = a.width + b.width := by
  rw [width, vars, List.length_append, width, width]

-- The bits are counted from the last variable on, so that those of the right block come first.
theorem code_append (env : Var → Bool) : block.code env = a.code env * 2 ^ b.width + b.code env := by
  have turned : block.bits = b.bits ++ a.bits := by rw [bits, vars, List.reverse_append, bits, bits]
  have length : b.bits.length = b.width := List.length_reverse
  rw [code, turned, spelt_append, length, code, code, Nat.mul_comm, Nat.add_comm]

theorem code_pair (env : Var → Bool) (i j : Nat) (small : j < 2 ^ b.width) :
    (decide (a.code env = i) && decide (b.code env = j)) = decide (block.code env = i * 2 ^ b.width + j) := by
  have below := b.code_lt env
  have quotient : ∀ n k, k < 2 ^ b.width → (n * 2 ^ b.width + k) / 2 ^ b.width = n := by
    intro n k less
    rw [Nat.mul_comm, Nat.mul_add_div (Nat.two_pow_pos _), Nat.div_eq_of_lt less, Nat.add_zero]
  rw [code_append a b block vars, Bool.eq_iff_iff, Bool.and_eq_true, decide_eq_true_eq, decide_eq_true_eq,
    decide_eq_true_eq]
  constructor
  · rintro ⟨rfl, rfl⟩
    rfl
  · intro same
    -- the quotients agree, and then the remainders do
    have left : a.code env = i := by
      rw [← quotient (a.code env) (b.code env) below, same, quotient i j small]
    rw [left] at same
    exact ⟨left, Nat.add_left_cancel same⟩

theorem pair_lt (i j : Nat) (small : i < 2 ^ a.width) (also : j < 2 ^ b.width) :
    i * 2 ^ b.width + j < 2 ^ block.width := by
  have next : (i + 1) * 2 ^ b.width ≤ 2 ^ a.width * 2 ^ b.width := Nat.mul_le_mul_right _ small
  rw [width_append a b block vars, Nat.pow_add]
  lia

end Block

namespace BlockTable

open DomainDiagram.Action

section

variable (book : Book) (table : BlockTable) (left right : Nat) (a b : Block) (store : Store)
  (coherent : store.Coherent book) (owned : table.owner = some store.id) (first : table.blocks[left]? = some a)
  (second : table.blocks[right]? = some b) (fits : a.size * b.size < Block.sizeBound)

include owned first second fits

theorem plan_overlap_fits : table.planOverlap left right store = .ok (a, b) := by
  have mine := check_owner_mine table store owned
  simp only [planOverlap, BlockTable.block, mine, first, second, bind, Except.bind, pure, Except.pure, if_pos fits]

include coherent

theorem overlap_unbroken (aLive : store.Live a.varset) (bLive : store.Live b.varset) (room : store.Spares 1) :
    Ends (table.overlap left right) store (fun _ next => next.numVars = store.numVars) fun _ _ => False := by
  obtain ⟨set, middle, made, advanced, live, _⟩ := gives_combine book .and store coherent a.varset b.varset aLive bLive
  have held := ends_and _ middle _ _ _ _ (hold_recounts middle set)
    (hold_breaks middle advanced.coherent.sound set live)
  unfold Ends overlap Request.afterCheck
  rw [plan_overlap_fits table left right a b store owned first second fits]
  refine ends_perform _ store _ _ (ends_then _ _ store middle set _ _ made ?_)
  refine ends_bind _ _ middle _ _ _ (ends_mono _ middle _ _ _ _ held (fun _ _ known => known) ?_) ?_
  · rintro _ next ⟨_, _, full⟩
    rw [tally_built store middle advanced.built] at full
    exact absurd full (Nat.not_le_of_lt (room set))
  · rintro _ next ⟨⟨_, counts, rfl⟩, _⟩
    exact advanced.built.vars

theorem overlap_made (aLive : store.Live a.varset) (bLive : store.Live b.varset) (room : store.Spares 1) :
    ∃ block next, table.overlap left right store = .ok { table with blocks := table.blocks.push block } next ∧
      block.size = a.size * b.size ∧ block.vars = a.vars ++ b.vars ∧ next.id = store.id ∧
      next.numVars = store.numVars ∧ ∀ f, next.tally f = store.tally f + block.varset.once f := by
  have known := ends_and _ store _ _ _ _ (overlap_ends book table left right store coherent)
    (overlap_unbroken book table left right a b store coherent owned first second fits aLive bLive room)
  obtain ⟨later, next, done, ⟨⟨follows, _⟩, _, c, d, set, found, there, _, rfl, tally⟩, vars⟩ :=
    ends_done _ store _ _ known fun _ _ both => both.2
  obtain rfl := Option.some.inj (first.symm.trans found)
  obtain rfl := Option.some.inj (second.symm.trans there)
  exact ⟨_, next, done, rfl, rfl, follows.id, vars, tally⟩

end
end BlockTable

structure Picks (ws : Workspace) (m : Nat) (block : Block) (n : Nat) (f : Ref) : Prop where
  pins : ∃ store env, ws.stores[m]? = some store ∧ store.Live f ∧ store.Pins f block.vars env ∧ block.code env = n
  count : (ws.look (.ask m (.modelsOver f block.varset))).1 = .fact (.ok (.amount 1))

namespace Workspace

section

variable (ws : Workspace) (m t : Nat) (table : BlockTable) {spare : Nat} (engaged : ws.Engaged m t table spare)

include engaged

theorem engaged_picks (index : Nat) (block : Block) (listed : table.blocks[index]? = some block)
    (set : ws.Means m block.varset fun env => block.vars.all env) (once : block.vars.Nodup) (n : Nat)
    (small : n < 2 ^ block.width) (f : Ref) (means : ws.Means m f fun env => decide (block.code env = n)) :
    Picks ws m block n f := by
  obtain ⟨store, found, live, value⟩ := means
  obtain ⟨env, spelt⟩ := block.code_onto once n small
  have pins : store.Pins f block.vars env := by
    intro other
    rw [value, decide_eq_true_eq, ← spelt, block.code_same]
  refine ⟨⟨store, env, found, live, pins, spelt⟩, ?_⟩
  have single : ∀ env, decide (block.code env = n) = [n].any fun k => decide (block.code env = k) := fun env =>
    (Bool.or_false _).symm
  exact ws.engaged_counts m t table engaged index block listed set once [n] (List.nodup_singleton n)
    (List.forall_mem_singleton.mpr small) f ⟨store, found, live, fun env => (value env).trans (single env)⟩

theorem engaged_joined (enough : 1 ≤ spare) (left right index : Nat) (a b block : Block)
    (first : table.blocks[left]? = some a) (second : table.blocks[right]? = some b)
    (listed : table.blocks[index]? = some block) (vars : block.vars = a.vars ++ b.vars)
    (set : ws.Means m block.varset fun env => block.vars.all env) (once : block.vars.Nodup) (i j : Nat)
    (small : i < a.size) (also : j < b.size) : ∃ f g both last,
      ws.Serves [(.encode m t (.value left i), f), (.encode m t (.value right j), g),
        (.construct m (.combine .and f g), both)] last ∧
      Picks last m block (i * 2 ^ b.width + j) both ∧
      (i * 2 ^ b.width + j ≤ block.size → ∃ final,
        last.Serves [(.encode m t (.value index (i * 2 ^ b.width + j)), both)] final) := by
  obtain ⟨store, found⟩ := engaged_present ws m t table engaged
  have aFits := Nat.lt_of_lt_of_le small (engaged_shaped ws m t table engaged left a first store found).wide
  have bFits := Nat.lt_of_lt_of_le also (engaged_shaped ws m t table engaged right b second store found).wide
  have inside := Block.pair_lt a b block vars i j aFits bFits
  obtain ⟨f, g, both, last, serves, onward, still, pair⟩ :=
    engaged_pair ws m t table engaged enough left right i j a b first second small also
  have means := means_congr last m both _ _ (fun env => Block.code_pair a b block vars env i j bFits) pair
  have picks := last.engaged_picks m t table still index block listed (onward.means _ _ set) once _ inside both means
  refine ⟨f, g, both, last, serves, picks, fun low => ?_⟩
  have spells := engaged_spells last m t table still enough index _ block listed low
  rw [Nat.mod_eq_of_lt inside] at spells
  exact engaged_known last m t table still _ _ spells both means

end

theorem overlap_reply (ws : Workspace) (m t left right : Nat) (store next : Store) (table later : BlockTable)
    (found : ws.stores[m]? = some store) (tabled : ws.tables[t]? = some table)
    (done : table.overlap left right store = .ok later next) :
    ws.perform (.overlap m t left right) = ⟨.ok (.index table.size), Event.ofOverlap table later left right,
      (ws.setStore m next).setTable t later⟩ := by
  simp only [perform, overlap, Workspace.table, tabled, Workspace.found, on_store_run, found, done]

theorem overlap_stands (ws : Workspace) (journal : Journal) (fair : Fair ws journal) (m t : Nat) (store : Store)
    (table : BlockTable) (found : ws.stores[m]? = some store) (room : store.Roomy)
    (tabled : ws.tables[t]? = some table) (owned : table.owner = some store.id) (left right : Nat) (a b : Block)
    (first : table.blocks[left]? = some a) (second : table.blocks[right]? = some b)
    (fits : a.size * b.size < Block.sizeBound) :
    ∃ later next block, (ws.perform (.overlap m t left right)).outcome = .ok (.index table.size) ∧
      (ws.perform (.overlap m t left right)).workspace = later ∧ later.stores[m]? = some next ∧
      next.numVars = store.numVars ∧ block.size = a.size * b.size ∧ block.vars = a.vars ++ b.vars ∧
      later.Engaged m t { table with blocks := table.blocks.push block } 2 ∧
      later.Means m block.varset fun env => block.vars.all env := by
  obtain ⟨book, _, trusted⟩ := reachable_trusted ws (fair_reachable ws journal fair)
  have standing := (fair_accounted ws journal fair).fitted m t store table found tabled owned
  obtain ⟨block, next, done, size, vars, id, grown, tally⟩ := BlockTable.overlap_made book table left right a b store
    (trusted m store found) owned first second fits (standing left a first).live (standing right b second).live
    (store.spares_fewer 3 1 (by decide) room)
  -- one hold less than before fits into the count of the new set
  have space : next.Spares 2 := by
    intro f
    have once := block.varset.once_le f
    have before := room f
    rw [tally]
    lia
  have reply := ws.overlap_reply m t left right store next table _ found tabled done
  have onward := Fair.step ws journal (.overlap m t left right) fair trivial
  rw [reply] at onward ⊢
  have stored := set_store_found ws m store next found
  have placed := set_table_found (ws.setStore m next) t table { table with blocks := table.blocks.push block } tabled
  have engaged := engaged_found _ (fair_reachable _ _ onward) m t next _ stored 2 space placed (id ▸ owned)
  have set := fair_varset _ _ onward m t _ engaged table.size block Array.getElem?_push_size
  exact ⟨_, next, block, rfl, rfl, stored, grown, size, vars, engaged, set⟩

end Workspace

structure Concatenated (ws : Workspace) (m t left right index : Nat) (a b block : Block) : Prop where
  size : block.size = a.size * b.size
  vars : block.vars = a.vars ++ b.vars
  code : ∀ env, block.code env = a.code env * 2 ^ b.width + b.code env
  pairs : a.vars.Nodup → b.vars.Nodup → a.vars.Disjoint b.vars → ∀ i j, i < a.size → j < b.size →
    ∃ f g both last, ws.Serves [(.encode m t (.value left i), f), (.encode m t (.value right j), g),
      (.construct m (.combine .and f g), both)] last ∧ Picks last m block (i * 2 ^ b.width + j) both ∧
      (i * 2 ^ b.width + j ≤ block.size → ∃ final,
        last.Serves [(.encode m t (.value index (i * 2 ^ b.width + j)), both)] final)

theorem overlap_concatenates (ws : Workspace) (journal : Journal) (fair : Fair ws journal) (m t : Nat) (store : Store)
    (table : BlockTable) (found : ws.stores[m]? = some store) (room : store.Roomy)
    (tabled : ws.tables[t]? = some table) (owned : table.owner = some store.id) (left right : Nat) (a b : Block)
    (first : table.blocks[left]? = some a) (second : table.blocks[right]? = some b)
    (fits : a.size * b.size < Block.sizeBound) :
    ∃ later next block, (ws.perform (.overlap m t left right)).outcome = .ok (.index table.size) ∧
      (ws.perform (.overlap m t left right)).workspace = later ∧ later.stores[m]? = some next ∧
      next.numVars = store.numVars ∧ later.tables[t]? = some { table with blocks := table.blocks.push block } ∧
      Concatenated later m t left right table.size a b block := by
  obtain ⟨later, next, block, outcome, reached, stored, grown, size, vars, engaged, set⟩ :=
    ws.overlap_stands journal fair m t store table found room tabled owned left right a b first second fits
  refine ⟨later, next, block, outcome, reached, stored, grown, engaged.tabled, size, vars,
    Block.code_append a b block vars, fun aOnce bOnce apart i j small also => ?_⟩
  have once : block.vars.Nodup := by
    rw [vars]
    exact List.Nodup.append aOnce bOnce apart
  exact later.engaged_joined m t _ engaged (by decide) left right table.size a b block
    (Workspace.push_found table.blocks block a left first) (Workspace.push_found table.blocks block b right second)
    Array.getElem?_push_size vars set once i j small also

-- The left block is an overlap itself, and the variables are not in order.
theorem nested_concatenated :
    ∃ (ws : Workspace) (journal : Journal) (store : Store) (table : BlockTable) (a b : Block),
      ws = Workspace.empty.run [.newStore {}, .newTable, .extend 0 0 [3, 4, 2], .overlap 0 0 1 0] ∧ Fair ws journal ∧
      ws.stores[0]? = some store ∧ store.Roomy ∧ ws.tables[0]? = some table ∧ table.owner = some store.id ∧
      table.blocks[3]? = some a ∧ table.blocks[2]? = some b ∧ a.vars = [2, 5, 1, 4] ∧ b.vars = [3] ∧
      a.size * b.size < Block.sizeBound ∧
      ∃ later next block, (ws.perform (.overlap 0 0 3 2)).outcome = .ok (.index table.size) ∧
        (ws.perform (.overlap 0 0 3 2)).workspace = later ∧ later.stores[0]? = some next ∧
        next.numVars = store.numVars ∧ later.tables[0]? = some { table with blocks := table.blocks.push block } ∧
        Concatenated later 0 0 3 2 table.size a b block := by
  obtain ⟨ws, built⟩ : ∃ ws, ws = Workspace.empty.run
    [.newStore {}, .newTable, .extend 0 0 [3, 4, 2], .overlap 0 0 1 0] := ⟨_, rfl⟩
  obtain ⟨journal, fair⟩ := fair_run .empty [] .start
    [.newStore {}, .newTable, .extend 0 0 [3, 4, 2], .overlap 0 0 1 0] (by simp [Journal.Allows])
  rw [← built] at fair
  obtain ⟨store, table, found, room, tabled, owned, placed⟩ := ws.laid_out 0 0 1
    [([1, 4], 3), ([2, 5], 4), ([3], 2), ([2, 5, 1, 4], 12)] (by rw [built]; decide +kernel)
    (by rw [built]; decide +kernel)
  obtain ⟨a, first, aVars, aSize⟩ := placed 3 _ _ rfl
  obtain ⟨b, second, bVars, bSize⟩ := placed 2 _ _ rfl
  have fits : a.size * b.size < Block.sizeBound := by
    rw [aSize, bSize]
    decide
  exact ⟨ws, journal, store, table, a, b, built, fair, found, room, tabled, owned, first, second, aVars, bVars, fits,
    overlap_concatenates ws journal fair 0 0 store table found room tabled owned 3 2 a b first second fits⟩

end DomainDiagram
