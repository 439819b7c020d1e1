import DomainDiagram.Proofs.Shapes
import DomainDiagram.Query

set_option autoImplicit false

namespace DomainDiagram

-- A condition in the way of a request, with the answer where it is not met.
structure Check where
  fails : Bool
  refusal : Refusal

namespace Check

def first : List Check → Option Refusal
  | [] => none
  | check :: rest => if check.fails then some check.refusal else first rest

theorem first_append (checks more : List Check) : first (checks ++ more) = (first checks).or (first more) := by
  induction checks with
  | nil => rfl
  | cons check rest ih =>
      by_cases fails : check.fails
      · simp [first, fails]
      · simp [first, fails, ih]

theorem first_none (checks : List Check) (pass : ∀ check ∈ checks, check.fails = false) : first checks = none := by
  induction checks with
  | nil => rfl
  | cons check rest ih =>
      obtain ⟨now, later⟩ := List.forall_mem_cons.mp pass
      rw [first, if_neg (by simp [now]), ih later]

end Check

def refused {α : Type} : Except Refusal α → Option Refusal
  | .ok _ => none
  | .error refusal => some refusal

theorem refused_bind {α β : Type} (plan : Except Refusal α) (next : α → Except Refusal β) (checks more : List Check)
    (now : refused plan = Check.first checks) (later : ∀ a, plan = .ok a → refused (next a) = Check.first more) :
    refused (plan >>= next) = Check.first (checks ++ more) := by
  rw [Check.first_append, ← now]
  cases outcome : plan with
  | ok a => exact later a outcome
  | error refusal => rfl

theorem refused_map {α β : Type} (plan : α → Except Refusal β) (check : α → Check)
    (each : ∀ a, refused (plan a) = Check.first [check a]) (items : List α) :
    refused (items.mapM plan) = Check.first (items.map check) := by
  induction items with
  | nil => rfl
  | cons a rest ih =>
      rw [List.mapM_cons]
      refine refused_bind _ _ [check a] (rest.map check) (each a) fun b _ => ?_
      rw [← ih]
      cases rest.mapM plan <;> rfl

namespace Store

def roomCheck (store : Store) (n : Nat) : Check :=
  ⟨decide (store.config.maxVars - store.numVars < n ∨ Var.bound ≤ store.numVars + 1),
    .outOfVariables n (store.config.maxVars - store.numVars)⟩

def varCheck (store : Store) (v : Var) : Check := ⟨decide (store.numVars < v), .noVariable v store.numVars⟩

def pairChecks (store : Store) (v w : Var) : List Check := [store.varCheck v, store.varCheck w]

theorem refused_next_var (store : Store) (n : Nat) : refused (store.nextVar n) = Check.first [store.roomCheck n] := by
  by_cases fits : store.numVars + 1 < Var.bound ∧ n ≤ store.config.maxVars - store.numVars
  · have pass : ¬ (store.config.maxVars - store.numVars < n ∨ Var.bound ≤ store.numVars + 1) := by lia
    simp [nextVar, fits, refused, Check.first, roomCheck, pass]
  · have fail : store.config.maxVars - store.numVars < n ∨ Var.bound ≤ store.numVars + 1 := by lia
    simp [nextVar, fits, refused, Check.first, roomCheck, fail]

theorem refused_check_var (store : Store) (v : Var) : refused (store.checkVar v) = Check.first [store.varCheck v] := by
  by_cases beyond : store.numVars < v
  · simp [checkVar, beyond, refused, Check.first, varCheck]
  · simp [checkVar, beyond, refused, Check.first, varCheck]

theorem refused_check_pair (store : Store) (v w : Var) :
    refused (store.checkPair v w) = Check.first (store.pairChecks v w) :=
  refused_bind _ _ [store.varCheck v] [store.varCheck w] (refused_check_var store v)
    fun _ _ => refused_check_var store w

end Store

namespace BlockTable

def ownerChecks (table : BlockTable) (store : Store) : List Check :=
  match table.owner with
  | some expected => [⟨expected != store.id, .foreignStore expected store.id⟩]
  | none => []

def indexCheck (table : BlockTable) (index : Nat) : Check :=
  ⟨decide (table.size ≤ index), .noBlock index table.size⟩

def blockChecks (table : BlockTable) (index : Nat) (checks : Block → List Check) (store : Store) : List Check :=
  table.ownerChecks store ++ (table.indexCheck index :: (table.blocks[index]?.map checks).getD [])

def twoChecks (table : BlockTable) (left right : Nat) (checks : Block → Block → List Check) (store : Store) :
    List Check :=
  table.blockChecks left (fun a => table.indexCheck right :: (table.blocks[right]?.map (checks a)).getD []) store

def extendChecks (table : BlockTable) (sizes : List Nat) (store : Store) : List Check :=
  table.ownerChecks store ++ (sizes.map (fun size => ⟨size == 0, .emptyBlock size⟩) ++
    if sizes.isEmpty then [] else [store.roomCheck (total (sizes.map bitWidth))])

def productChecks (left right : Nat) (a b : Block) : List Check :=
  [⟨decide (Block.sizeBound ≤ a.size * b.size), .sizeOverflow left right⟩]

def widthCheck (left right : Nat) (a b : Block) : Check :=
  ⟨a.width != b.width, .mismatch .bitWidth left right a.width b.width⟩

def equalChecks (left right : Nat) (a b : Block) : List Check :=
  [⟨a.size != b.size, .mismatch .size left right a.size b.size⟩, widthCheck left right a b]

-- The variables of the pairs are looked at as well, one pair after the other.
def pairingChecks (source target : Nat) (store : Store) (a b : Block) : List Check :=
  widthCheck source target a b :: (a.vars.zip b.vars).flatMap fun (v, w) => store.pairChecks v w

theorem refused_owner (table : BlockTable) (store : Store) :
    refused (table.checkOwner store) = Check.first (table.ownerChecks store) := by
  cases owner : table.owner with
  | none => simp [checkOwner, ownerChecks, owner, refused, Check.first]
  | some expected =>
      by_cases same : expected = store.id
      · simp [checkOwner, ownerChecks, owner, same, refused, Check.first]
      · simp [checkOwner, ownerChecks, owner, same, refused, Check.first]

theorem refused_block (table : BlockTable) (index : Nat) :
    refused (table.block index) = Check.first [table.indexCheck index] := by
  by_cases inside : index < table.blocks.size
  · have listed : table.blocks[index]? = some table.blocks[index] := Array.getElem?_eq_getElem inside
    simp [BlockTable.block, listed, refused, Check.first, indexCheck, size, Nat.not_le_of_lt inside]
  · have beyond : table.blocks[index]? = none := Array.getElem?_eq_none_iff.mpr (Nat.le_of_not_lt inside)
    simp [BlockTable.block, refused, Check.first, indexCheck, size, Nat.le_of_not_lt inside]

theorem refused_with {α : Type} (table : BlockTable) (index : Nat) (next : Block → Except Refusal α)
    (checks : Block → List Check)
    (later : ∀ block, table.blocks[index]? = some block → refused (next block) = Check.first (checks block)) :
    refused (table.block index >>= next) =
      Check.first (table.indexCheck index :: (table.blocks[index]?.map checks).getD []) := by
  refine refused_bind _ _ [table.indexCheck index] _ (refused_block table index) fun block found => ?_
  have listed := block_ok table index block found
  rw [later block listed, listed]
  rfl

theorem refused_one {α : Type} (table : BlockTable) (index : Nat) (store : Store) (next : Block → Except Refusal α)
    (checks : Block → List Check) (later : ∀ block, table.blocks[index]? = some block →
      table.checkOwner store = .ok () → refused (next block) = Check.first (checks block)) :
    refused (do
      table.checkOwner store
      let block ← table.block index
      next block) = Check.first (table.blockChecks index checks store) :=
  refused_bind _ _ _ _ (refused_owner table store) fun _ owned =>
    refused_with table index next checks fun block listed => later block listed owned

theorem refused_two {α : Type} (table : BlockTable) (left right : Nat) (store : Store)
    (next : Block → Block → Except Refusal α) (checks : Block → Block → List Check)
    (later : ∀ a b, table.blocks[left]? = some a → table.blocks[right]? = some b →
      table.checkOwner store = .ok () → refused (next a b) = Check.first (checks a b)) :
    refused (do
      table.checkOwner store
      let a ← table.block left
      let b ← table.block right
      next a b) = Check.first (table.twoChecks left right checks store) :=
  refused_one table left store _ _ fun a first owned =>
    refused_with table right (next a) (checks a) fun b second => later a b first second owned

theorem refused_widths (sizes : List Nat) :
    refused (widths sizes) = Check.first (sizes.map fun size => ⟨size == 0, .emptyBlock size⟩) := by
  refine refused_map _ _ (fun size => ?_) sizes
  by_cases zero : size = 0
  · simp [zero, refused, Check.first]
  · simp [zero, refused, Check.first]

theorem refused_extend (table : BlockTable) (sizes : List Nat) (store : Store) :
    refused (table.planExtend sizes store) = Check.first (table.extendChecks sizes store) := by
  refine refused_bind _ _ _ _ (refused_owner table store) fun _ _ => ?_
  refine refused_bind _ _ _ _ (refused_widths sizes) fun given checked => ?_
  obtain ⟨rfl, _⟩ := widths_ok sizes given checked
  cases sizes with
  | nil => rfl
  | cons size rest =>
      rw [← List.append_nil (if (size :: rest).isEmpty then _ else _)]
      exact refused_bind _ _ _ [] (Store.refused_next_var store _) fun _ _ => rfl

theorem refused_overlap (table : BlockTable) (left right : Nat) (store : Store) :
    refused (table.planOverlap left right store) =
      Check.first (table.twoChecks left right (productChecks left right) store) := by
  refine refused_two table left right store _ _ fun a b _ _ _ => ?_
  by_cases fits : a.size * b.size < Block.sizeBound
  · simp [fits, refused, Check.first, productChecks, pure, Except.pure, Nat.not_le_of_lt fits]
  · simp [fits, refused, Check.first, productChecks, throw, throwThe, MonadExceptOf.throw, Nat.le_of_not_lt fits]

theorem refused_value (table : BlockTable) (index value : Nat) (store : Store) :
    refused (table.planValue index value store) = Check.first (table.blockChecks index
      (fun block => [⟨decide (block.size < value), .valueTooLarge index value block.size⟩]) store) := by
  refine refused_one table index store _ _ fun block _ _ => ?_
  by_cases large : block.size < value
  · simp [large, refused, Check.first, throw, throwThe, MonadExceptOf.throw, bind, Except.bind]
  · simp [large, refused, Check.first, pure, Except.pure]

theorem refused_legal (table : BlockTable) (index : Nat) (store : Store) :
    refused (table.planBlock index store) = Check.first (table.blockChecks index (fun _ => []) store) := by
  rw [planBlock, ← bind_pure (table.block index)]
  exact refused_one table index store pure (fun _ => []) fun block _ _ => rfl

theorem refused_width (left right : Nat) (a b : Block) {α : Type} (result : α) :
    refused (do
      if a.width ≠ b.width then throw (.mismatch .bitWidth left right a.width b.width)
      return result) = Check.first [widthCheck left right a b] := by
  by_cases same : a.width = b.width
  · simp [same, refused, Check.first, widthCheck, pure, Except.pure]
  · simp [same, refused, Check.first, widthCheck, throw, throwThe, MonadExceptOf.throw, bind, Except.bind]

theorem refused_equal (table : BlockTable) (left right : Nat) (store : Store) :
    refused (table.planEqual left right store) =
      Check.first (table.twoChecks left right (equalChecks left right) store) := by
  refine refused_two table left right store _ _ fun a b _ _ _ => ?_
  by_cases same : a.size = b.size
  · simpa [same, Check.first, equalChecks] using refused_width left right a b (a, b)
  · simp [same, refused, Check.first, equalChecks, throw, throwThe, MonadExceptOf.throw, bind, Except.bind]

theorem refused_union (table : BlockTable) (indices : List Nat) (store : Store) :
    refused (table.planUnion indices store) =
      Check.first (table.ownerChecks store ++ indices.map table.indexCheck) := by
  refine refused_bind _ _ _ _ (refused_owner table store) fun _ _ => ?_
  refine refused_map table.varset table.indexCheck (fun index => ?_) indices
  rw [← refused_block table index, varset]
  cases table.block index <;> rfl

-- The variables of blocks are allocated where the blocks belong, so that the
-- checks of the pairs are never the ones that fail.
theorem refused_pair (table : BlockTable) (source target : Nat) (store : Store)
    (allocated : table.checkOwner store = .ok () → ∀ (i : Nat) (block : Block), table.blocks[i]? = some block →
      ∀ v ∈ block.vars, v ≤ store.numVars) :
    refused (table.planPair source target store).2 =
      Check.first (table.twoChecks source target (pairingChecks source target store) store) := by
  have plan : refused (table.planPair source target store).2 = refused (do
      table.checkOwner store
      table.pairBlocks source target) := by
    simp only [planPair, bind, Except.bind]
    cases table.checkOwner store with
    | error refusal => rfl
    | ok _ =>
        simp only [pairWhile]
        cases table.pairBlocks source target <;> rfl
  rw [plan]
  refine refused_two table source target store _ _ fun a b first second owned => ?_
  have pass : ∀ check ∈ (a.vars.zip b.vars).flatMap (fun (v, w) => store.pairChecks v w), check.fails = false := by
    intro check listed
    obtain ⟨⟨v, w⟩, paired, member⟩ := List.mem_flatMap.mp listed
    obtain ⟨left, right⟩ := List.of_mem_zip paired
    have small := allocated owned source a first v left
    have alsoSmall := allocated owned target b second w right
    rcases List.mem_pair.mp member with rfl | rfl
    · exact decide_eq_false (Nat.not_lt_of_le small)
    · exact decide_eq_false (Nat.not_lt_of_le alsoSmall)
  rw [refused_width, pairingChecks, Check.first, Check.first, Check.first, Check.first_none _ pass]

theorem plan_pair_refused (table : BlockTable) (source target : Nat) (store : Store) (refusal : Refusal)
    (failed : (table.planPair source target store).2 = .error refusal) :
    (table.planPair source target store).1 = [] := by
  unfold planPair at failed ⊢
  cases owned : table.checkOwner store with
  | error other => rfl
  | ok _ =>
      simp only [owned, pairWhile] at failed ⊢
      cases paired : table.pairBlocks source target with
      | ok pair => simp [paired] at failed
      | error other => rfl

end BlockTable

def refusalOf {α : Type} : Except Failure α → Option Refusal
  | .error (.refused refusal) => some refusal
  | _ => none

def Said.refusal : Said → Option Refusal
  | .changed outcome => refusalOf outcome
  | .told (.fact outcome) => refusalOf outcome
  | .told _ => none

namespace Workspace

def onTable (ws : Workspace) (m t : Nat) (checks : BlockTable → Store → List Check) : Option (List Check) :=
  match ws.stores[m]?, ws.tables[t]? with
  | some store, some table => some (checks table store)
  | _, _ => none

-- What a call is put to before anything is done, in this order. The calls
-- listed are those that may be turned down without leaving a trace.
def checks (ws : Workspace) : Call → Option (List Check)
  | .change (.newVars m n) => ws.stores[m]?.map fun store => [store.roomCheck n]
  | .change (.pair m p v w) =>
      match ws.stores[m]?, ws.renamings[p]? with
      | some store, some _ => some (store.pairChecks v w)
      | _, _ => none
  | .change (.extend m t sizes) => ws.onTable m t (·.extendChecks sizes)
  | .change (.overlap m t left right) =>
      ws.onTable m t (·.twoChecks left right (BlockTable.productChecks left right))
  | .change (.teardown m t) => ws.onTable m t BlockTable.ownerChecks
  | .change (.encode m t (.value index value)) => ws.onTable m t (·.blockChecks index fun block =>
      [⟨decide (block.size < value), .valueTooLarge index value block.size⟩])
  | .change (.encode m t (.legal index)) => ws.onTable m t (·.blockChecks index fun _ => [])
  | .change (.encode m t (.equal left right)) =>
      ws.onTable m t (·.twoChecks left right (BlockTable.equalChecks left right))
  | .change (.encode m t (.varset indices)) =>
      ws.onTable m t fun table store => table.ownerChecks store ++ indices.map table.indexCheck
  | .change (.pairBlocks m t p source target) =>
      match ws.renamings[p]? with
      | some _ => ws.onTable m t fun table store =>
          table.twoChecks source target (BlockTable.pairingChecks source target store) store
      | none => none
  | .look (.blocksOf m t _) => ws.onTable m t BlockTable.ownerChecks
  | _ => none

structure Heeds (ws : Workspace) (reply : Reply) (checks : List Check) : Prop where
  answer : refusalOf reply.outcome = Check.first checks
  still : Check.first checks ≠ none → reply.workspace = ws

theorem on_table_some (ws : Workspace) (m t : Nat) (given : BlockTable → Store → List Check) (checks : List Check)
    (listed : ws.onTable m t given = some checks) : ∃ (store : Store) (table : BlockTable),
      ws.stores[m]? = some store ∧ ws.table t = .ok table ∧ checks = given table store := by
  unfold onTable at listed
  split at listed
  · next store table found tabled =>
      refine ⟨store, table, found, ?_, (Option.some.inj listed).symm⟩
      rw [Workspace.table, tabled]
  · cases listed

theorem heeds_on_store {α β : Type} (ws : Workspace) (m : Nat) (store : Store) (found : ws.stores[m]? = some store)
    (plan : Store → Except Refusal α) (act : α → Action β) (answer : β → Store → Workspace → Reply)
    (checks : List Check) (same : refused (plan store) = Check.first checks)
    (answers : ∀ b next later, refusalOf (answer b next later).outcome = none) :
    ws.Heeds (ws.onStore m (Request.afterCheck plan act) answer) checks := by
  rw [on_store_run, found]
  simp only [Request.afterCheck]
  cases planned : plan store with
  | error refusal =>
      rw [planned] at same
      refine ⟨same, fun _ => ?_⟩
      exact congrArg (fun stores => { ws with stores }) (set_same ws.stores m store found)
  | ok a =>
      rw [planned] at same
      simp only [Request.perform]
      cases act a store with
      | ok b next => exact ⟨(answers b next _).trans same, fun fails => absurd same.symm fails⟩
      | error fault next => exact ⟨same, fun fails => absurd same.symm fails⟩

theorem heeds_teardown (ws : Workspace) (m t : Nat) (store : Store) (table : BlockTable)
    (found : ws.stores[m]? = some store) (named : ws.table t = .ok table) :
    ws.Heeds (ws.teardown m t) (table.ownerChecks store) := by
  have same := table.refused_owner store
  rw [teardown_run, named, found]
  simp only [Workspace.found, BlockTable.teardown]
  cases owned : table.checkOwner store with
  | error refusal =>
      rw [owned] at same
      refine ⟨same, fun _ => ?_⟩
      have stores := set_same ws.stores m store found
      have tables := set_same ws.tables t table (table_found ws t table named)
      exact congrArg₂ (fun stores tables => { ws with stores, tables }) stores tables
  | ok _ =>
      rw [owned] at same
      cases BlockTable.releaseAll table.blocks.toList store with
      | ok _ next => exact ⟨same, fun fails => absurd same.symm fails⟩
      | error fault next => exact ⟨same, fun fails => absurd same.symm fails⟩

theorem heeds_pair (ws : Workspace) (m p : Nat) (v w : Var) (store : Store) (names : Renaming)
    (found : ws.stores[m]? = some store) (current : ws.renamings[p]? = some names) :
    ws.Heeds (ws.pair m p v w) (store.pairChecks v w) := by
  have same := store.refused_check_pair v w
  have named := (names_found ws p names).mpr current
  simp only [pair, Workspace.found, Workspace.store, found, named]
  cases checked : store.checkPair v w with
  | error refusal =>
      rw [checked] at same
      exact ⟨same, fun _ => rfl⟩
  | ok _ =>
      rw [checked] at same
      exact ⟨same, fun fails => absurd same.symm fails⟩

theorem owned_allocated (ws : Workspace) (reachable : ws.Reachable) (m t : Nat) (store : Store) (table : BlockTable)
    (found : ws.stores[m]? = some store) (tabled : ws.tables[t]? = some table)
    (owned : table.checkOwner store = .ok ()) (i : Nat) (block : Block) (listed : table.blocks[i]? = some block) :
    block.Shaped store := by
  obtain ⟨_, k, home, homeFound, mine, shaped⟩ := reachable_shaped ws reachable t table tabled i block listed
  have same : home.id = store.id := by
    rcases (BlockTable.check_owner_ok table store).mp owned with none | given
    · exact nomatch none.symm.trans mine
    · exact Option.some.inj (mine.symm.trans given)
  obtain rfl := (reachable_bound ws reachable).distinct k m home store homeFound found same
  exact Option.some.inj (homeFound.symm.trans found) ▸ shaped

theorem heeds_pair_blocks (ws : Workspace) (reachable : ws.Reachable) (m t p source target : Nat) (store : Store)
    (table : BlockTable) (names : Renaming) (found : ws.stores[m]? = some store) (named : ws.table t = .ok table)
    (current : ws.renamings[p]? = some names) :
    ws.Heeds (ws.perform (.pairBlocks m t p source target))
      (table.twoChecks source target (BlockTable.pairingChecks source target store) store) := by
  have same := table.refused_pair source target store fun owned i block listed v member =>
    ((owned_allocated ws reachable m t store table found (table_found ws t table named) owned i block
      listed).allocated v member).2
  have known := (names_found ws p names).mpr current
  simp only [perform, pairAs, Workspace.found, Workspace.store, found, named, known]
  cases planned : (table.planPair source target store).2 with
  | ok _ =>
      rw [planned] at same
      exact ⟨same, fun fails => absurd same.symm fails⟩
  | error refusal =>
      rw [planned] at same
      refine ⟨same, fun _ => ?_⟩
      rw [table.plan_pair_refused source target store refusal planned]
      exact congrArg (fun renamings => { ws with renamings }) (set_same ws.renamings p names current)

theorem heeds_perform (ws : Workspace) (reachable : ws.Reachable) (command : Command) (checks : List Check)
    (listed : ws.checks (.change command) = some checks) : ws.Heeds (ws.perform command) checks := by
  have onTable : ∀ {α β : Type} (m t : Nat) (plan : BlockTable → Store → Except Refusal α)
      (act : BlockTable → α → Action β) (answer : BlockTable → β → Store → Workspace → Reply)
      (given : BlockTable → Store → List Check), ws.onTable m t given = some checks →
      (∀ table store, refused (plan table store) = Check.first (given table store)) →
      (∀ table b next later, refusalOf (answer table b next later).outcome = none) →
      ws.Heeds (ws.found (ws.table t) fun table =>
        ws.onStore m (Request.afterCheck (plan table) (act table)) (answer table)) checks := by
    intro α β m t plan act answer given listed same answers
    obtain ⟨store, table, found, named, rfl⟩ := on_table_some ws m t given checks listed
    rw [named]
    exact heeds_on_store ws m store found (plan table) (act table) (answer table) _ (same table store) (answers table)
  cases command with
  | newVars m n =>
      obtain ⟨store, found, rfl⟩ := Option.map_eq_some_iff.mp listed
      exact heeds_on_store ws m store found _ _ _ _ (store.refused_next_var n) fun _ _ _ => rfl
  | pair m p v w =>
      simp only [Workspace.checks] at listed
      split at listed
      · next store names found current =>
          obtain rfl := Option.some.inj listed
          exact heeds_pair ws m p v w store names found current
      · exact nomatch listed
  | extend m t sizes => exact onTable m t _ _ _ _ listed (·.refused_extend sizes) fun _ _ _ _ => rfl
  | overlap m t left right => exact onTable m t _ _ _ _ listed (·.refused_overlap left right) fun _ _ _ _ => rfl
  | teardown m t =>
      obtain ⟨store, table, found, named, rfl⟩ := on_table_some ws m t _ checks listed
      exact heeds_teardown ws m t store table found named
  | encode m t encoding =>
      cases encoding with
      | value index value => exact onTable m t _ _ _ _ listed (·.refused_value index value) fun _ _ _ _ => rfl
      | legal index => exact onTable m t _ _ _ _ listed (·.refused_legal index) fun _ _ _ _ => rfl
      | equal left right => exact onTable m t _ _ _ _ listed (·.refused_equal left right) fun _ _ _ _ => rfl
      | varset indices => exact onTable m t _ _ _ _ listed (·.refused_union indices) fun _ _ _ _ => rfl
  | pairBlocks m t p source target =>
      simp only [Workspace.checks] at listed
      split at listed
      · next names current =>
          obtain ⟨store, table, found, named, rfl⟩ := on_table_some ws m t _ checks listed
          exact heeds_pair_blocks ws reachable m t p source target store table names found named current
      · exact nomatch listed
  | _ => exact nomatch listed

end Workspace

theorem refusal_first (ws : Workspace) (reachable : ws.Reachable) (call : Call) (checks : List Check)
    (listed : ws.checks call = some checks) :
    (ws.turn call).said.refusal = Check.first checks ∧
      ((ws.turn call).said.refusal ≠ none → (ws.turn call).workspace = ws) := by
  cases call with
  | change command =>
      obtain ⟨answer, still⟩ := Workspace.heeds_perform ws reachable command checks listed
      exact ⟨answer, fun refused => still (answer ▸ refused)⟩
  | look query =>
      refine ⟨?_, fun _ => rfl⟩
      cases query with
      | blocksOf m t f =>
          obtain ⟨store, table, found, named, rfl⟩ := Workspace.on_table_some ws m t _ checks listed
          have same := table.refused_owner store
          simp only [Workspace.turn, Workspace.look, Workspace.factOf, Workspace.store, named, found,
            BlockTable.blocksOf]
          cases owned : table.checkOwner store with
          | error refusal => exact (owned ▸ same : refused (.error refusal : Except Refusal Unit) = _)
          | ok _ =>
              rw [owned] at same
              cases store.support f with
              | ok support => exact same
              | error fault => exact same
      | _ => exact nomatch listed

-- A table without an owner asks for more variables than are left, and stays as it was.
theorem crowded_refusal :
    ∃ (ws : Workspace) (checks : List Check),
      ws = Workspace.empty.run [.newStore { maxVars := 4 }, .newTable, .newTable, .extend 0 0 [3]] ∧
      ws.checks (.change (.extend 0 1 [16])) = some checks ∧
      (ws.turn (.change (.extend 0 1 [16]))).said.refusal = some (.outOfVariables 4 2) ∧
      (ws.turn (.change (.extend 0 1 [16]))).workspace = ws := by
  obtain ⟨ws, built⟩ : ∃ ws, ws = Workspace.empty.run [.newStore { maxVars := 4 }, .newTable, .newTable,
    .extend 0 0 [3]] := ⟨_, rfl⟩
  have given : ((ws.checks (.change (.extend 0 1 [16]))).map Check.first) = some (some (.outOfVariables 4 2)) := by
    rw [built]
    decide +kernel
  obtain ⟨checks, listed, fails⟩ := Option.map_eq_some_iff.mp given
  obtain ⟨answer, still⟩ := refusal_first ws ⟨_, built.symm⟩ _ checks listed
  rw [fails] at answer
  exact ⟨ws, checks, built, listed, answer, still (answer ▸ nofun)⟩

end DomainDiagram
