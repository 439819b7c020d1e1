import DomainDiagram.Proofs.Dialogue
import DomainDiagram.Proofs.Foreign

set_option autoImplicit false

namespace DomainDiagram

open Store

theorem Block.code_alike (a b : Block) (same : a.width = b.width) (env : Var → Bool) :
    ((a.bits.zip b.bits).all fun (v, w) => env v == env w) = decide (a.code env = b.code env) := by
  refine spelt_alike a.bits b.bits ?_ env
  rw [Block.bits, Block.bits, List.length_reverse, List.length_reverse]
  exact same

namespace BlockTable

open DomainDiagram.Action

section

variable (table : BlockTable) (left right : Nat) (a b : Block) (store : Store) (owned : table.owner = some store.id)
  (first : table.blocks[left]? = some a) (second : table.blocks[right]? = some b)

include owned first second

theorem plan_equal_alike (size : a.size = b.size) (width : a.width = b.width) :
    table.planEqual left right store = .ok (a, b) := by
  have mine := check_owner_mine table store owned
  simp only [planEqual, BlockTable.block, mine, first, second, bind, Except.bind, pure, Except.pure, size, width, ne_eq,
    not_true_eq_false, if_false]

theorem plan_equal_sizes (size : a.size ≠ b.size) :
    table.planEqual left right store = .error (.mismatch .size left right a.size b.size) := by
  have mine := check_owner_mine table store owned
  simp only [planEqual, BlockTable.block, mine, first, second, bind, Except.bind, if_pos size]
  rfl

theorem plan_equal_widths (size : a.size = b.size) (width : a.width ≠ b.width) :
    table.planEqual left right store = .error (.mismatch .bitWidth left right a.width b.width) := by
  have mine := check_owner_mine table store owned
  have still : ¬ a.size ≠ b.size := fun different => different size
  simp only [planEqual, BlockTable.block, mine, first, second, bind, Except.bind, if_neg still, if_pos width]
  rfl

theorem equal_spells (book : Book) (coherent : store.Coherent book) (room : store.Spares 3)
    (leftShaped : a.Shaped store) (rightShaped : b.Shaped store) (size : a.size = b.size) (width : a.width = b.width) :
    Delivers book (table.equal left right) store fun env => decide (a.code env = b.code env) := by
  have allocated : ∀ pair ∈ a.bits.zip b.bits,
      (0 < pair.1 ∧ pair.1 ≤ store.numVars) ∧ 0 < pair.2 ∧ pair.2 ≤ store.numVars := by
    intro pair member
    obtain ⟨v, w⟩ := pair
    obtain ⟨here, there⟩ := List.of_mem_zip member
    exact ⟨leftShaped.allocated v (List.mem_reverse.mp here), rightShaped.allocated w (List.mem_reverse.mp there)⟩
  have planned := plan_equal_alike table left right a b store owned first second size width
  obtain ⟨r, next, done, kept, tally, live, value⟩ := carries_delivers book _ store _ 3 room
    (alike_all_ends book store (a.bits.zip b.bits) allocated store (carries_refl book store coherent))
  refine ⟨r, next, ?_, kept, tally, live, fun env => (value env).trans (a.code_alike b width env)⟩
  simp only [equal, Request.afterCheck, planned, Request.perform, done]

end
end BlockTable

namespace Workspace

theorem equal_refused (ws : Workspace) (m t left right : Nat) (store : Store) (table : BlockTable)
    (found : ws.stores[m]? = some store) (tabled : ws.tables[t]? = some table) (refusal : Refusal)
    (turned : table.planEqual left right store = .error refusal) :
    ws.perform (.encode m t (.equal left right)) = ws.refuse (.refused refusal) := by
  rw [perform, encode, table_named ws t table tabled, Workspace.found]
  exact on_store_refused ws m store found _ _ _ refusal turned

section

variable (ws : Workspace) (m t : Nat) (table : BlockTable) (engaged : ws.Engaged m t table 3) (left right : Nat)
  (a b : Block) (first : table.blocks[left]? = some a) (second : table.blocks[right]? = some b)

include engaged first second

theorem engaged_equal (size : a.size = b.size) (width : a.width = b.width) :
    ws.Supplies m (.encode m t (.equal left right)) fun env => decide (a.code env = b.code env) := by
  apply engaged_encodes ws m t table engaged
  intro book store found coherent room owned
  have leftShaped := engaged_shaped ws m t table engaged left a first store found
  have rightShaped := engaged_shaped ws m t table engaged right b second store found
  exact BlockTable.equal_spells table left right a b store owned first second book coherent room leftShaped rightShaped
    size width

theorem engaged_alike (e : Ref) (means : ws.Means m e fun env => decide (a.code env = b.code env)) (i j : Nat)
    (small : i < a.size) (also : j < b.size) : ∃ f g both last,
    ws.Serves [(.encode m t (.value left i), f), (.encode m t (.value right j), g),
      (.construct m (.combine .and f g), both),
      (.construct m (.combine .and e both), if i = j then both else 0)] last := by
  obtain ⟨f, g, both, middle, answers, onward, kept, pair⟩ :=
    engaged_pair ws m t table engaged (by decide) left right i j a b first second small also
  have joins := middle.supplies_combine kept.reachable m .and e both _ _ (onward.means e _ means) pair
  have known : middle.Means m (if i = j then both else 0) fun env => Connective.and.eval
      (decide (a.code env = b.code env)) (decide (a.code env = i) && decide (b.code env = j)) := by
    split
    next alike =>
      refine middle.means_congr m both _ _ (fun env => ?_) pair
      rw [Bool.eq_iff_iff]
      simp only [Connective.eval, Bool.and_eq_true, decide_eq_true_eq]
      lia
    next different =>
      have never := middle.means_constant m false (engaged_present middle m t table kept)
      refine middle.means_congr m 0 _ _ (fun env => ?_) never
      rw [Bool.eq_iff_iff]
      simp only [Connective.eval, Bool.and_eq_true, decide_eq_true_eq, Bool.false_eq_true, false_iff]
      lia
  obtain ⟨last, joined⟩ := engaged_known middle m t table kept _ _ joins _ known
  exact ⟨f, g, both, last, serves_append ws middle last _ _ answers joined⟩

end

end Workspace

-- The function e tells where two blocks spell the same number. The blocks may share bits or repeat them.
structure Likened (ws : Workspace) (m t left right : Nat) (a b : Block) (e : Ref) : Prop where
  means : ws.Means m e fun env => decide (a.code env = b.code env)
  itself : left = right → e = 1
  swapped : ∃ last, ws.Serves [(.encode m t (.equal right left), e)] last
  picks : ∀ i j, i < a.size → j < b.size → ∃ f g both last,
    ws.Serves [(.encode m t (.value left i), f), (.encode m t (.value right j), g),
      (.construct m (.combine .and f g), both), (.construct m (.combine .and e both), if i = j then both else 0)] last

structure Compared (ws : Workspace) (m t left right : Nat) (a b : Block) : Prop where
  sizes : a.size ≠ b.size → ws.perform (.encode m t (.equal left right)) =
    ws.refuse (.refused (.mismatch .size left right a.size b.size))
  widths : a.size = b.size → a.width ≠ b.width → ws.perform (.encode m t (.equal left right)) =
    ws.refuse (.refused (.mismatch .bitWidth left right a.width b.width))
  alike : a.size = b.size → a.width = b.width → ∃ e later,
    ws.Serves [(.encode m t (.equal left right), e)] later ∧ Likened later m t left right a b e

theorem equal_compares (ws : Workspace) (reachable : ws.Reachable) (m t : Nat) (store : Store) (table : BlockTable)
    (found : ws.stores[m]? = some store) (room : store.Roomy) (tabled : ws.tables[t]? = some table)
    (owned : table.owner = some store.id) (left right : Nat) (a b : Block) (first : table.blocks[left]? = some a)
    (second : table.blocks[right]? = some b) : Compared ws m t left right a b := by
  have engaged := ws.engaged_found reachable m t store table found 3 room tabled owned
  refine ⟨fun size => ?sizes, fun size width => ?widths, fun size width => ?alike⟩
  case sizes =>
    have turned := BlockTable.plan_equal_sizes table left right a b store owned first second size
    exact ws.equal_refused m t left right store table found tabled _ turned
  case widths =>
    have turned := BlockTable.plan_equal_widths table left right a b store owned first second size width
    exact ws.equal_refused m t left right store table found tabled _ turned
  case alike =>
    have supplies := ws.engaged_equal m t table engaged left right a b first second size width
    obtain ⟨e, later, answer, onward, still, means⟩ := ws.engaged_serves m t table engaged _ _ supplies
    refine ⟨e, later, answer, means, fun same => ?_, ?_, fun i j small also => ?_⟩
    · subst same
      obtain rfl := Option.some.inj (first.symm.trans second)
      exact later.means_one still.reachable m e _ means fun env => decide_eq_true rfl
    · have turned := later.engaged_equal m t table still right left b a second first size.symm width.symm
      exact later.engaged_known m t table still _ _ turned e
        (later.means_congr m e _ _ (fun env => decide_eq_decide.mpr eq_comm) means)
    · exact later.engaged_alike m t table still left right a b first second e means i j small also

-- Each of the two blocks has the bits of the other, in another order.
theorem swapped_compared : ∃ (ws : Workspace) (store : Store) (table : BlockTable) (a b : Block),
    ws = Workspace.empty.run [.newStore {}, .newTable, .extend 0 0 [3, 4], .overlap 0 0 0 1, .overlap 0 0 1 0] ∧
      ws.Reachable ∧ ws.stores[0]? = some store ∧ store.Roomy ∧ ws.tables[0]? = some table ∧
      table.owner = some store.id ∧ table.blocks[2]? = some a ∧ table.blocks[3]? = some b ∧
      a.vars = [1, 3, 2, 4] ∧ b.vars = [2, 4, 1, 3] ∧ a.size = 12 ∧ b.size = 12 ∧ Compared ws 0 0 2 3 a b := by
  obtain ⟨ws, built⟩ : ∃ ws, ws = Workspace.empty.run
    [.newStore {}, .newTable, .extend 0 0 [3, 4], .overlap 0 0 0 1, .overlap 0 0 1 0] := ⟨_, rfl⟩
  have reachable : ws.Reachable := ⟨_, built.symm⟩
  obtain ⟨store, table, found, room, tabled, owned, placed⟩ := ws.laid_out 0 0 1
    [([1, 3], 3), ([2, 4], 4), ([1, 3, 2, 4], 12), ([2, 4, 1, 3], 12)] (by rw [built]; decide +kernel)
    (by rw [built]; decide +kernel)
  obtain ⟨a, first, aVars, aSize⟩ := placed 2 _ _ rfl
  obtain ⟨b, second, bVars, bSize⟩ := placed 3 _ _ rfl
  exact ⟨ws, store, table, a, b, built, reachable, found, room, tabled, owned, first, second, aVars, bVars, aSize,
    bSize, equal_compares ws reachable 0 0 store table found room tabled owned 2 3 a b first second⟩

end DomainDiagram
