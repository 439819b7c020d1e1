import DomainDiagram.Proofs.Foreign
import DomainDiagram.Proofs.Pairing

set_option autoImplicit false

namespace DomainDiagram

namespace Renaming

theorem get_put_all (names : Renaming) (fresh : Nat) (pairs : List (Var × Var)) (v : Var) :
    (names.putAll fresh pairs).1.get? v = (pairs.reverse.lookup v).or (names.get? v) := by
  induction pairs generalizing names fresh with
  | nil => rfl
  | cons pair rest ih =>
      obtain ⟨w, target⟩ := pair
      rw [putAll, ih, get_put, List.reverse_cons, List.lookup_append, Option.or_assoc]
      by_cases same : v = w
      · simp [same]
      · have differ : (v == w) = false := beq_eq_false_iff_ne.mpr same
        simp [same, List.lookup_cons, differ]

theorem put_all_append (names : Renaming) (fresh : Nat) (first rest : List (Var × Var)) :
    names.putAll fresh (first ++ rest) =
      (names.putAll fresh first).1.putAll (names.putAll fresh first).2 rest := by
  induction first generalizing names fresh with
  | nil => rfl
  | cons pair others ih => exact ih _ _

theorem put_blocks_entries (names : Renaming) (fresh : Nat) (pairs : List BlockPair) :
    names.putBlocks fresh pairs = names.putAll fresh (pairs.flatMap (·.vars)) := by
  induction pairs generalizing names fresh with
  | nil => rfl
  | cons pair rest ih =>
      rw [List.flatMap_cons, put_all_append, ← ih]
      rfl

theorem put_all_id (names : Renaming) (fresh : Nat) (pairs : List (Var × Var)) (some : pairs ≠ []) :
    fresh ≤ (names.putAll fresh pairs).1.id ∧ (names.putAll fresh pairs).1.id < (names.putAll fresh pairs).2 := by
  cases pairs with
  | nil => exact absurd rfl some
  | cons pair rest =>
      rcases (names.put fresh pair.1 pair.2).put_all_drawn (fresh + 1) rest with same | ⟨above, below⟩
      · have last : names.putAll fresh (pair :: rest) = (names.put fresh pair.1 pair.2, fresh + 1) := same
        rw [last]
        exact ⟨Nat.le_refl fresh, Nat.lt_succ_self fresh⟩
      · exact ⟨Nat.le_of_succ_le above, below⟩

end Renaming

namespace BlockTable

def varsAt (table : BlockTable) (k : Nat) : List Var := (table.blocks[k]?.map (·.vars)).getD []

def blockPair (table : BlockTable) (pair : Nat × Nat) : BlockPair :=
  ⟨pair.1, pair.2, (table.varsAt pair.1).zip (table.varsAt pair.2)⟩

def entries (table : BlockTable) (pairs : List (Nat × Nat)) : List (Var × Var) :=
  pairs.flatMap fun (source, target) => (table.varsAt source).zip (table.varsAt target)

def Valid (table : BlockTable) (pairs : List (Nat × Nat)) : Prop :=
  ∀ pair ∈ pairs, pair.1 < table.size ∧ pair.2 < table.size

-- The first index that names no block, the source of a pair before its target.
def firstBad (table : BlockTable) (pairs : List (Nat × Nat)) : Option Nat :=
  (pairs.flatMap fun (source, target) => [source, target]).find? (table.size ≤ ·)

def firstMismatch (table : BlockTable) (pairs : List (Nat × Nat)) : Nat :=
  pairs.findIdx fun (source, target) => (table.varsAt source).length != (table.varsAt target).length

def mismatch (table : BlockTable) (source target : Nat) : Refusal :=
  .mismatch .bitWidth source target (table.varsAt source).length (table.varsAt target).length

theorem block_inside (table : BlockTable) (k : Nat) (inside : k < table.size) :
    ∃ block, table.block k = .ok block ∧ block.vars = table.varsAt k := by
  have listed : table.blocks[k]? = some table.blocks[k] := Array.getElem?_eq_getElem inside
  exact ⟨table.blocks[k], by rw [block, listed], by rw [varsAt, listed]; rfl⟩

theorem block_beyond (table : BlockTable) (k : Nat) (beyond : table.size ≤ k) :
    table.block k = .error (.noBlock k table.size) := by
  rw [block, Array.getElem?_eq_none_iff.mpr beyond]

theorem pair_blocks_at (table : BlockTable) (source target : Nat) (first : source < table.size)
    (second : target < table.size) : table.pairBlocks source target =
      if (table.varsAt source).length = (table.varsAt target).length then .ok (table.blockPair (source, target))
      else .error (table.mismatch source target) := by
  obtain ⟨a, aFound, aVars⟩ := table.block_inside source first
  obtain ⟨b, bFound, bVars⟩ := table.block_inside target second
  by_cases same : a.vars.length = b.vars.length
  · simp [pairBlocks, aFound, bFound, Block.width, same, blockPair, ← aVars, ← bVars, bind, Except.bind, pure,
      Except.pure]
  · simp [pairBlocks, aFound, bFound, Block.width, same, mismatch, ← aVars, ← bVars, bind, Except.bind,
      throw, throwThe, MonadExceptOf.throw]

theorem check_blocks_first (table : BlockTable) (pairs : List (Nat × Nat)) : table.checkBlocks pairs =
    match table.firstBad pairs with
    | some k => .error (.noBlock k table.size)
    | none => .ok () := by
  induction pairs with
  | nil => rfl
  | cons pair rest ih =>
      obtain ⟨source, target⟩ := pair
      rw [checkBlocks, ih, firstBad, firstBad, List.flatMap_cons, List.cons_append, List.cons_append, List.nil_append]
      rcases Nat.lt_or_ge source table.size with first | first
      · obtain ⟨a, aFound, _⟩ := table.block_inside source first
        rcases Nat.lt_or_ge target table.size with second | second
        · obtain ⟨b, bFound, _⟩ := table.block_inside target second
          simp [aFound, bFound, first, second, bind, Except.bind, List.find?_cons]
        · simp [aFound, table.block_beyond target second, first, second, bind, Except.bind]
      · simp [table.block_beyond source first, first, bind, Except.bind]

theorem first_bad_none (table : BlockTable) (pairs : List (Nat × Nat)) (none : table.firstBad pairs = none) :
    table.Valid pairs := by
  intro pair member
  have inside : ∀ k ∈ [pair.1, pair.2], k < table.size := by
    intro k here
    simpa using List.find?_eq_none.mp none k (List.mem_flatMap.mpr ⟨pair, member, here⟩)
  exact ⟨inside _ (by simp), inside _ (by simp)⟩

theorem first_mismatch_cons (table : BlockTable) (source target : Nat) (rest : List (Nat × Nat)) :
    table.firstMismatch ((source, target) :: rest) =
      if (table.varsAt source).length = (table.varsAt target).length then table.firstMismatch rest + 1 else 0 := by
  by_cases same : (table.varsAt source).length = (table.varsAt target).length
  · simp [firstMismatch, List.findIdx_cons, same]
  · have differ := bne_iff_ne.mpr same
    simp [firstMismatch, List.findIdx_cons, same, differ]

theorem pair_while_prefix (table : BlockTable) (pairs : List (Nat × Nat)) (valid : table.Valid pairs) :
    table.pairWhile pairs = ((pairs.take (table.firstMismatch pairs)).map table.blockPair,
      match pairs[table.firstMismatch pairs]? with
      | none => .ok ()
      | some (source, target) => .error (table.mismatch source target)) := by
  induction pairs with
  | nil => rfl
  | cons pair rest ih =>
      obtain ⟨source, target⟩ := pair
      obtain ⟨⟨first, second⟩, later⟩ := List.forall_mem_cons.mp valid
      rw [pairWhile, table.pair_blocks_at source target first second, first_mismatch_cons]
      by_cases same : (table.varsAt source).length = (table.varsAt target).length
      · rw [if_pos same, if_pos same]
        simp only [ih later]
        rfl
      · rw [if_neg same, if_neg same]
        rfl

theorem matched_before (table : BlockTable) (pairs : List (Nat × Nat)) :
    ∀ pair ∈ pairs.take (table.firstMismatch pairs), (table.varsAt pair.1).length = (table.varsAt pair.2).length := by
  induction pairs with
  | nil => exact nofun
  | cons pair rest ih =>
      obtain ⟨source, target⟩ := pair
      rw [first_mismatch_cons]
      by_cases same : (table.varsAt source).length = (table.varsAt target).length
      · rw [if_pos same, List.take_succ_cons]
        exact List.forall_mem_cons.mpr ⟨same, ih⟩
      · rw [if_neg same]
        exact nofun

theorem plan_pairs_bad (table : BlockTable) (store : Store) (owned : table.owner = some store.id)
    (pairs : List (Nat × Nat)) (i : Nat) (bad : table.firstBad pairs = some i) :
    table.planPairs pairs store = ([], .error (.noBlock i table.size)) := by
  have mine := table.check_owner_mine store owned
  have checked := table.check_blocks_first pairs
  rw [bad] at checked
  simp only [planPairs, mine, checked]

theorem plan_pairs_valid (table : BlockTable) (store : Store) (owned : table.owner = some store.id)
    (pairs : List (Nat × Nat)) (none : table.firstBad pairs = none) :
    table.planPairs pairs store = table.pairWhile pairs := by
  have mine := table.check_owner_mine store owned
  have checked := table.check_blocks_first pairs
  rw [none] at checked
  simp only [planPairs, mine, checked]

theorem entries_vars (table : BlockTable) (pairs : List (Nat × Nat)) :
    (pairs.map table.blockPair).flatMap (·.vars) = table.entries pairs := List.flatMap_map ..

end BlockTable

namespace Workspace

theorem run_draws (ws : Workspace) (reachable : ws.Reachable) (commands : List Command) :
    ws.nextRenaming ≤ (ws.run commands).nextRenaming := by
  induction commands generalizing ws with
  | nil => exact Nat.le_refl _
  | cons command rest ih =>
      have drawn := redraws_drawn ws _ (perform_redraws ws command)
      exact Nat.le_trans drawn (ih _ (reachable_perform ws reachable command))

theorem drawn_before (ws : Workspace) (reachable : ws.Reachable) (p : Nat) (names : Renaming)
    (current : ws.renamings[p]? = some names) : names.id < ws.nextRenaming := by
  obtain ⟨book, booked, _⟩ := reachable_trusted ws reachable
  by_contra late
  have unknown := booked.fresh names.id (Nat.le_of_not_lt late)
  rw [booked.current p names current] at unknown
  cases unknown

theorem drawn_earlier (earlier rest : List Command) (q : Nat) (other : Renaming)
    (there : (empty.run earlier).renamings[q]? = some other) :
    other.id < ((empty.run earlier).run rest).nextRenaming :=
  Nat.lt_of_lt_of_le (drawn_before _ ⟨earlier, rfl⟩ q other there) (run_draws _ ⟨earlier, rfl⟩ rest)

def Completes (ws : Workspace) : List Command → Prop
  | [] => True
  | command :: rest => (ws.perform command).outcome = .ok .done ∧ (ws.perform command).workspace.Completes rest

def answered : Except Refusal Unit → Except Failure Answer
  | .ok () => .ok .done
  | .error refusal => .error (.refused refusal)

theorem set_names_twice (ws : Workspace) (p : Nat) (first second : Renaming) (next later : Nat) :
    (ws.setNames p first next).setNames p second later = ws.setNames p second later :=
  congrArg (fun renamings => { ws with renamings, nextRenaming := later }) (Array.setIfInBounds_setIfInBounds ..)

section

variable (ws : Workspace) (m t p : Nat) (store : Store) (table : BlockTable) (names : Renaming)
variable (found : ws.stores[m]? = some store) (tabled : ws.tables[t]? = some table)
variable (current : ws.renamings[p]? = some names)
include found tabled current

theorem pair_as_planned (plan : BlockTable → Store → List BlockPair × Except Refusal Unit) (pairs : List (Nat × Nat))
    (outcome : Except Refusal Unit) (planned : plan table store = (pairs.map table.blockPair, outcome)) :
    (ws.pairAs m t p plan).outcome = answered outcome ∧
      (ws.pairAs m t p plan).workspace = ws.setNames p (names.putAll ws.nextRenaming (table.entries pairs)).1
        (names.putAll ws.nextRenaming (table.entries pairs)).2 := by
  rw [pair_as_run, store_named ws m store found, table_named ws t table tabled, (names_found ws p names).mpr current]
  simp only [Workspace.found, planned, names.put_blocks_entries, table.entries_vars]
  exact ⟨rfl, trivial⟩

theorem run_pairs (owned : table.owner = some store.id) (pairs : List (Nat × Nat)) (valid : table.Valid pairs)
    (matched : ∀ pair ∈ pairs, (table.varsAt pair.1).length = (table.varsAt pair.2).length) :
    ws.Completes (pairs.map fun (source, target) => .pairBlocks m t p source target) ∧
      ws.run (pairs.map fun (source, target) => .pairBlocks m t p source target) =
        ws.setNames p (names.putAll ws.nextRenaming (table.entries pairs)).1
          (names.putAll ws.nextRenaming (table.entries pairs)).2 := by
  induction pairs generalizing ws names with
  | nil =>
      refine ⟨trivial, ?_⟩
      exact congrArg (fun renamings => { ws with renamings }) (set_same ws.renamings p names current).symm
  | cons pair rest ih =>
      obtain ⟨source, target⟩ := pair
      obtain ⟨⟨first, second⟩, laterValid⟩ := List.forall_mem_cons.mp valid
      obtain ⟨same, laterMatched⟩ := List.forall_mem_cons.mp matched
      have mine := table.check_owner_mine store owned
      have planned : table.planPair source target store = ([(source, target)].map table.blockPair, .ok ()) := by
        simp only [BlockTable.planPair, mine, BlockTable.pairWhile, table.pair_blocks_at source target first second,
          if_pos same, List.map_cons, List.map_nil]
      obtain ⟨answer, entered⟩ := ws.pair_as_planned m t p store table names found tabled current
        (fun table store => table.planPair source target store) _ _ planned
      have there : p < ws.renamings.size := (Array.getElem?_eq_some_iff.mp current).1
      obtain ⟨completes, after⟩ := ih (ws.setNames p (names.putAll ws.nextRenaming (table.entries [(source, target)])).1
        (names.putAll ws.nextRenaming (table.entries [(source, target)])).2) _ found tabled
        (Array.getElem?_setIfInBounds_self_of_lt there) laterValid laterMatched
      rw [List.map_cons]
      refine ⟨⟨answer, ?_⟩, ?_⟩
      · exact entered ▸ completes
      · have whole : table.entries ((source, target) :: rest) =
            table.entries [(source, target)] ++ table.entries rest := by simp [BlockTable.entries]
        rw [whole, names.put_all_append]
        exact (congrArg (fun next : Workspace => next.run _) entered).trans (after.trans (set_names_twice ..))

end

-- Entry by entry there would be nothing to refuse.
theorem entries_allowed (ws : Workspace) (reachable : ws.Reachable) (m t : Nat) (store : Store) (table : BlockTable)
    (found : ws.stores[m]? = some store) (tabled : ws.tables[t]? = some table) (owned : table.owner = some store.id)
    (pairs : List (Nat × Nat)) : ∀ pair ∈ table.entries pairs, store.checkPair pair.1 pair.2 = .ok () := by
  have allocated : ∀ k, ∀ v ∈ table.varsAt k, store.checkVar v = .ok () := by
    intro k v member
    have mine := table.check_owner_mine store owned
    cases listed : table.blocks[k]? with
    | none => simp [BlockTable.varsAt, listed] at member
    | some block =>
        have own : v ∈ block.vars := by simpa [BlockTable.varsAt, listed] using member
        have shaped := owned_allocated ws reachable m t store table found tabled mine k block listed
        rw [Store.checkVar, if_neg (Nat.not_lt_of_le (shaped.allocated v own).2)]
  intro pair member
  obtain ⟨⟨source, target⟩, _, column⟩ := List.mem_flatMap.mp member
  obtain ⟨left, right⟩ := List.of_mem_zip column
  simp only [Store.checkPair, allocated source pair.1 left, allocated target pair.2 right, bind, Except.bind]

-- The first k pairs of a batch are entered and nothing else is done. A
-- renaming that is changed bears an identity that has never been drawn.
structure Batched (ws : Workspace) (m t p : Nat) (store : Store) (table : BlockTable) (names : Renaming)
    (pairs : List (Nat × Nat)) (k : Nat) (later : Renaming) : Prop where
  outcome : (ws.perform (.pairAll m t p pairs)).outcome = match pairs[k]? with
    | none => .ok .done
    | some (source, target) => .error (.refused (table.mismatch source target))
  stores : (ws.perform (.pairAll m t p pairs)).workspace.stores = ws.stores
  tables : (ws.perform (.pairAll m t p pairs)).workspace.tables = ws.tables
  current : (ws.perform (.pairAll m t p pairs)).workspace.renamings[p]? = some later
  others : ∀ q, q ≠ p → (ws.perform (.pairAll m t p pairs)).workspace.renamings[q]? = ws.renamings[q]?
  map : ∀ v, later.get? v = ((table.entries (pairs.take k)).reverse.lookup v).or (names.get? v)
  allowed : ∀ pair ∈ table.entries (pairs.take k), store.checkPair pair.1 pair.2 = .ok ()
  singly : ws.Completes ((pairs.take k).map fun (source, target) => .pairBlocks m t p source target) ∧
    ws.run ((pairs.take k).map fun (source, target) => .pairBlocks m t p source target) =
      (ws.perform (.pairAll m t p pairs)).workspace
  quiet : table.entries (pairs.take k) = [] → later = names
  fresh : table.entries (pairs.take k) ≠ [] → ws.nextRenaming ≤ later.id ∧
    later.id < (ws.perform (.pairAll m t p pairs)).workspace.nextRenaming ∧
    ∀ earlier rest, (empty.run earlier).run rest = ws → ∀ (q : Nat) (other : Renaming),
      (empty.run earlier).renamings[q]? = some other → other.id ≠ later.id

theorem batch_commits (ws : Workspace) (reachable : ws.Reachable) (m t p : Nat) (store : Store) (table : BlockTable)
    (names : Renaming) (found : ws.stores[m]? = some store) (tabled : ws.tables[t]? = some table)
    (owned : table.owner = some store.id) (current : ws.renamings[p]? = some names) (pairs : List (Nat × Nat)) :
    (∀ i, table.firstBad pairs = some i →
      ws.perform (.pairAll m t p pairs) = ws.refuse (.refused (.noBlock i table.size))) ∧
    (table.firstBad pairs = none →
      ∃ later, ws.Batched m t p store table names pairs (table.firstMismatch pairs) later) := by
  constructor
  · intro i bad
    exact ws.pair_as_refused m t p store table names found tabled current
      (fun table store => table.planPairs pairs store) _ (table.plan_pairs_bad store owned pairs i bad)
  · intro none
    have valid := table.first_bad_none pairs none
    have planned := (table.plan_pairs_valid store owned pairs none).trans (table.pair_while_prefix pairs valid)
    obtain ⟨answer, entered⟩ := ws.pair_as_planned m t p store table names found tabled current
      (fun table store => table.planPairs pairs store) _ _ planned
    obtain ⟨completes, singly⟩ := ws.run_pairs m t p store table names found tabled current owned
      (pairs.take (table.firstMismatch pairs)) (fun pair member => valid pair (List.mem_of_mem_take member))
      (table.matched_before pairs)
    have there : p < ws.renamings.size := (Array.getElem?_eq_some_iff.mp current).1
    refine ⟨(names.putAll ws.nextRenaming (table.entries (pairs.take (table.firstMismatch pairs)))).1, ?_⟩
    constructor
    case outcome =>
      refine answer.trans ?_
      cases pairs[table.firstMismatch pairs]? <;> rfl
    case stores => exact (congrArg Workspace.stores entered).trans rfl
    case tables => exact (congrArg Workspace.tables entered).trans rfl
    case current =>
      exact (congrArg (fun later : Workspace => later.renamings[p]?) entered).trans
        (Array.getElem?_setIfInBounds_self_of_lt there)
    case others =>
      intro q other
      exact (congrArg (fun later : Workspace => later.renamings[q]?) entered).trans
        (Array.getElem?_setIfInBounds_ne (Ne.symm other))
    case map => exact names.get_put_all _ _
    case allowed => exact ws.entries_allowed reachable m t store table found tabled owned _
    case singly => exact ⟨completes, singly.trans entered.symm⟩
    case quiet =>
      intro nothing
      rw [nothing]
      rfl
    case fresh =>
      intro some
      obtain ⟨above, below⟩ := names.put_all_id ws.nextRenaming _ some
      refine ⟨above, ?_, ?_⟩
      · exact (congrArg Workspace.nextRenaming entered).symm ▸ below
      · intro earlier rest whole q other there
        have before := drawn_earlier earlier rest q other there
        rw [whole] at before
        exact Nat.ne_of_lt (Nat.lt_of_lt_of_le before above)

-- The second pair overrides the first, the third is of different widths, and
-- what was paired before stays; an index past the last block stops it all.
theorem overriding_commits :
    ∃ (ws : Workspace) (store : Store) (table : BlockTable) (names later : Renaming),
      ws = empty.run [.newStore {}, .newTable, .extend 0 0 [4, 4, 2, 4], .newRenaming, .pair 0 0 3 2] ∧
      ws.stores[0]? = some store ∧ ws.tables[0]? = some table ∧ table.owner = some store.id ∧
      ws.renamings[0]? = some names ∧ table.firstBad [(0, 1), (2, 9), (7, 0)] = some 9 ∧
      ws.perform (.pairAll 0 0 0 [(0, 1), (2, 9), (7, 0)]) = ws.refuse (.refused (.noBlock 9 table.size)) ∧
      table.firstBad [(0, 1), (0, 3), (1, 2), (3, 0)] = none ∧
      ws.Batched 0 0 0 store table names [(0, 1), (0, 3), (1, 2), (3, 0)] 2 later ∧
      names.toList = [(3, 2)] ∧ later.toList = [(1, 4), (3, 2), (5, 7)] := by
  obtain ⟨ws, built⟩ : ∃ ws, ws = empty.run [.newStore {}, .newTable, .extend 0 0 [4, 4, 2, 4], .newRenaming,
    .pair 0 0 3 2] := ⟨_, rfl⟩
  have kept : ws.stores[0]?.any (fun store => decide (store.id = 1)) = true := by
    rw [built]
    decide +kernel
  have laid : ws.tables[0]?.any (fun table => decide (table.owner = some 1 ∧
      table.firstBad [(0, 1), (2, 9), (7, 0)] = some 9 ∧
      table.firstBad [(0, 1), (0, 3), (1, 2), (3, 0)] = none ∧
      table.firstMismatch [(0, 1), (0, 3), (1, 2), (3, 0)] = 2)) = true := by
    rw [built]
    decide +kernel
  have before : ws.renamings[0]?.any (fun names => decide (names.toList = [(3, 2)])) = true := by
    rw [built]
    decide +kernel
  have after : (ws.perform (.pairAll 0 0 0 [(0, 1), (0, 3), (1, 2), (3, 0)])).workspace.renamings[0]?.any
      (fun later => decide (later.toList = [(1, 4), (3, 2), (5, 7)])) = true := by
    rw [built]
    decide +kernel
  obtain ⟨store, found, known⟩ := (Option.any_eq_true _ _).mp kept
  have id := of_decide_eq_true known
  obtain ⟨table, tabled, known⟩ := (Option.any_eq_true _ _).mp laid
  obtain ⟨owned, bad, good, stop⟩ := of_decide_eq_true known
  obtain ⟨names, current, known⟩ := (Option.any_eq_true _ _).mp before
  obtain ⟨last, there, entries⟩ := (Option.any_eq_true _ _).mp after
  obtain ⟨refused, _⟩ := batch_commits ws ⟨_, built.symm⟩ 0 0 0 store table names found tabled (id ▸ owned) current
    [(0, 1), (2, 9), (7, 0)]
  obtain ⟨later, batched⟩ := (batch_commits ws ⟨_, built.symm⟩ 0 0 0 store table names found tabled (id ▸ owned)
    current [(0, 1), (0, 3), (1, 2), (3, 0)]).2 good
  rw [stop] at batched
  obtain rfl := Option.some.inj (batched.current.symm.trans there)
  exact ⟨ws, store, table, names, later, built, found, tabled, id ▸ owned, current, bad, refused 9 bad, good,
    batched, of_decide_eq_true known, of_decide_eq_true entries⟩

end Workspace
end DomainDiagram
