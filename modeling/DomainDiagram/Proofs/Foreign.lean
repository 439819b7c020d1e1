import DomainDiagram.Proofs.Checks

set_option autoImplicit false

namespace DomainDiagram

-- The calls that bring store m and table t together. A pairing changes a
-- renaming too, which has to be there.
inductive Call.Meets (ws : Workspace) (m t : Nat) : Call → Prop where
  | extend (sizes : List Nat) : Meets ws m t (.change (.extend m t sizes))
  | overlap (left right : Nat) : Meets ws m t (.change (.overlap m t left right))
  | teardown : Meets ws m t (.change (.teardown m t))
  | encode (encoding : Encoding) : Meets ws m t (.change (.encode m t encoding))
  | pairBlocks (p source target : Nat) (names : Renaming) (current : ws.renamings[p]? = some names) :
      Meets ws m t (.change (.pairBlocks m t p source target))
  | pairAll (p : Nat) (pairs : List (Nat × Nat)) (names : Renaming) (current : ws.renamings[p]? = some names) :
      Meets ws m t (.change (.pairAll m t p pairs))
  | blocksOf (f : Ref) : Meets ws m t (.look (.blocksOf m t f))
  | print (f : Ref) : Meets ws m t (.look (.print m t f))
  | printInto (f : Ref) (sink : BoundedText) : Meets ws m t (.look (.printInto m t f sink))

def Call.refused (refusal : Refusal) : Call → Said
  | .change _ => .changed (.error (.refused refusal))
  | .look (.print ..) => .told (.printed (.error (.refused refusal)) "")
  | .look (.printInto _ _ _ sink) => .told (.printed (.error (.refused refusal)) sink.text)
  | .look _ => .told (.fact (.error (.refused refusal)))

def failureOf {α : Type} : Except Failure α → Option Failure
  | .error failure => some failure
  | .ok _ => none

theorem failure_error {α : Type} (outcome : Except Failure α) (failure : Failure)
    (failed : failureOf outcome = some failure) : outcome = .error failure := by
  cases outcome with
  | ok _ => exact nomatch failed
  | error other => exact congrArg Except.error (Option.some.inj failed)

def Said.failure : Said → Option Failure
  | .changed outcome => failureOf outcome
  | .told (.fact outcome) => failureOf outcome
  | .told (.names outcome) => failureOf outcome
  | .told (.table outcome) => failureOf outcome
  | .told (.printed outcome _) => failureOf outcome

namespace BlockTable

theorem check_owner_error (table : BlockTable) (store : Store) (id : Nat) (owned : table.owner = some id)
    (foreign : id ≠ store.id) : table.checkOwner store = .error (.foreignStore id store.id) := by
  simp only [checkOwner, owned, if_neg foreign]

end BlockTable

namespace Workspace

theorem table_named (ws : Workspace) (t : Nat) (table : BlockTable) (tabled : ws.tables[t]? = some table) :
    ws.table t = .ok table := by
  rw [Workspace.table, tabled]

theorem store_named (ws : Workspace) (m : Nat) (store : Store) (found : ws.stores[m]? = some store) :
    ws.store m = .ok store := by
  rw [Workspace.store, found]

theorem on_store_refused {α β : Type} (ws : Workspace) (m : Nat) (store : Store) (found : ws.stores[m]? = some store)
    (plan : Store → Except Refusal α) (act : α → Action β) (answer : β → Store → Workspace → Reply)
    (refusal : Refusal) (turned : plan store = .error refusal) :
    ws.onStore m (Request.afterCheck plan act) answer = ws.refuse (.refused refusal) := by
  rw [on_store_run, found]
  simp only [Request.afterCheck, turned, setStore, set_same ws.stores m store found]

theorem pair_as_refused (ws : Workspace) (m t p : Nat) (store : Store) (table : BlockTable) (names : Renaming)
    (found : ws.stores[m]? = some store) (tabled : ws.tables[t]? = some table)
    (current : ws.renamings[p]? = some names)
    (plan : BlockTable → Store → List BlockPair × Except Refusal Unit) (refusal : Refusal)
    (turned : plan table store = ([], .error refusal)) : ws.pairAs m t p plan = ws.refuse (.refused refusal) := by
  have still : ws.setNames p names ws.nextRenaming = ws :=
    congrArg (fun renamings => { ws with renamings }) (set_same ws.renamings p names current)
  rw [pair_as_run, store_named ws m store found, table_named ws t table tabled, (names_found ws p names).mpr current]
  simp only [Workspace.found, turned, Renaming.putBlocks, still]
  rfl

section

variable (ws : Workspace) (m t : Nat) (store : Store) (table : BlockTable) (found : ws.stores[m]? = some store)
  (tabled : ws.tables[t]? = some table) (refusal : Refusal) (turned : table.checkOwner store = .error refusal)

include found tabled turned

theorem foreign_command (command : Command) (meets : Call.Meets ws m t (.change command)) :
    ws.perform command = ws.refuse (.refused refusal) := by
  have named := table_named ws t table tabled
  cases meets with
  | extend sizes =>
      rw [perform, extend, named, Workspace.found]
      refine on_store_refused ws m store found (table.planExtend sizes) table.append _ refusal ?_
      simp only [BlockTable.planExtend, turned, bind, Except.bind]
  | overlap left right =>
      rw [perform, overlap, named, Workspace.found]
      refine on_store_refused ws m store found (table.planOverlap left right) _ _ refusal ?_
      simp only [BlockTable.planOverlap, turned, bind, Except.bind]
  | teardown =>
      have torn : table.teardown store = (.error (.refused refusal), table, store) := by
        simp only [BlockTable.teardown, turned]
      have still : (ws.setStore m store).setTable t table = ws :=
        congrArg₂ (fun stores tables => { ws with stores, tables }) (set_same ws.stores m store found)
          (set_same ws.tables t table tabled)
      rw [perform, teardown_run, named, found]
      simp only [Workspace.found, torn, still]
  | encode encoding =>
      rw [perform, encode, named, Workspace.found]
      cases encoding with
      | value index value =>
          refine on_store_refused ws m store found _ _ _ refusal ?_
          simp only [BlockTable.planValue, turned, bind, Except.bind]
      | legal index =>
          refine on_store_refused ws m store found _ _ _ refusal ?_
          simp only [BlockTable.planBlock, turned, bind, Except.bind]
      | equal left right =>
          refine on_store_refused ws m store found _ _ _ refusal ?_
          simp only [BlockTable.planEqual, turned, bind, Except.bind]
      | varset indices =>
          refine on_store_refused ws m store found _ _ _ refusal ?_
          simp only [BlockTable.planUnion, turned, bind, Except.bind]
  | pairBlocks p source target names current =>
      rw [perform]
      refine pair_as_refused ws m t p store table names found tabled current _ refusal ?_
      simp only [BlockTable.planPair, turned]
  | pairAll p pairs names current =>
      rw [perform]
      refine pair_as_refused ws m t p store table names found tabled current _ refusal ?_
      simp only [BlockTable.planPairs, turned]

theorem foreign_printing {σ : Type} (write : σ → String → Bool × σ) (sink : σ) (f : Ref) :
    ws.printing m t write sink f = (.error (.refused refusal), ⟨sink, []⟩) := by
  have print : table.print store write f ⟨sink, []⟩ = .error (.refused refusal) ⟨sink, []⟩ := by
    simp only [BlockTable.print, turned]
    rfl
  simp only [printing, table_named ws t table tabled, store_named ws m store found, print]

theorem foreign_turn (call : Call) (meets : call.Meets ws m t) : ws.turn call = ⟨call.refused refusal, [], ws⟩ := by
  cases call with
  | change command =>
      rw [turn, foreign_command ws m t store table found tabled refusal turned command meets]
      rfl
  | look query =>
      cases meets with
      | blocksOf f =>
          simp only [turn, look, factOf, table_named ws t table tabled, store_named ws m store found,
            BlockTable.blocksOf, turned]
          rfl
      | print f =>
          simp only [turn, look, foreign_printing ws m t store table found tabled refusal turned]
          rfl
      | printInto f sink =>
          simp only [turn, look, foreign_printing ws m t store table found tabled refusal turned]
          rfl

end

end Workspace

def Check.Stateless (checks : List Check) : Prop := ∀ check ∈ checks, check.refusal.kind ≠ .state

namespace Check

theorem first_member (checks : List Check) (refusal : Refusal) (fails : first checks = some refusal) :
    ∃ check ∈ checks, check.refusal = refusal := by
  induction checks with
  | nil => exact nomatch fails
  | cons check rest ih =>
      by_cases now : check.fails
      · rw [first, if_pos now] at fails
        exact ⟨check, List.mem_cons_self, Option.some.inj fails⟩
      · rw [first, if_neg now] at fails
        obtain ⟨other, member, same⟩ := ih fails
        exact ⟨other, List.mem_cons_of_mem _ member, same⟩

theorem stateless_first (checks : List Check) (stateless : Stateless checks) (refusal : Refusal)
    (fails : first checks = some refusal) : refusal.kind ≠ .state := by
  obtain ⟨check, member, rfl⟩ := first_member checks refusal fails
  exact stateless check member

end Check

namespace BlockTable

theorem stateless_block (table : BlockTable) (index : Nat) (checks : Block → List Check)
    (each : ∀ block, Check.Stateless (checks block)) :
    Check.Stateless (table.indexCheck index :: (table.blocks[index]?.map checks).getD []) := by
  refine List.forall_mem_cons.mpr ⟨nofun, ?_⟩
  cases table.blocks[index]? with
  | none => exact nofun
  | some block => exact each block

theorem stateless_blocks (table : BlockTable) (left right : Nat) (checks : Block → Block → List Check)
    (each : ∀ a b, Check.Stateless (checks a b)) : Check.Stateless (table.indexCheck left ::
      (table.blocks[left]?.map fun a =>
        table.indexCheck right :: (table.blocks[right]?.map (checks a)).getD []).getD []) :=
  table.stateless_block left _ fun a => table.stateless_block right (checks a) (each a)

theorem stateless_pairing (source target : Nat) (store : Store) (a b : Block) :
    Check.Stateless (pairingChecks source target store a b) := by
  refine List.forall_mem_cons.mpr ⟨nofun, fun check listed => ?_⟩
  obtain ⟨⟨v, w⟩, _, member⟩ := List.mem_flatMap.mp listed
  rcases List.mem_pair.mp member with rfl | rfl <;> exact nofun

theorem stateless_extend (store : Store) (sizes : List Nat) :
    Check.Stateless (sizes.map (fun size => ⟨size == 0, .emptyBlock size⟩) ++
      if sizes.isEmpty then [] else [store.roomCheck (total (sizes.map bitWidth))]) := by
  refine List.forall_mem_append.mpr ⟨?_, ?_⟩
  · rintro check listed
    obtain ⟨size, _, rfl⟩ := List.mem_map.mp listed
    exact nofun
  · split
    · exact nofun
    · exact List.forall_mem_singleton.mpr nofun

theorem owned_first (table : BlockTable) (store : Store) (owned : table.checkOwner store = .ok ())
    (rest : List Check) (stateless : Check.Stateless rest) (refusal : Refusal)
    (fails : Check.first (table.ownerChecks store ++ rest) = some refusal) : refusal.kind ≠ .state := by
  rw [Check.first_append, ← refused_owner, owned, refused, Option.none_or] at fails
  exact Check.stateless_first rest stateless refusal fails

theorem block_stateless (table : BlockTable) (index : Nat) (refusal : Refusal)
    (failed : table.block index = .error refusal) : refusal.kind ≠ .state := by
  have first := table.refused_block index
  rw [failed] at first
  exact Check.stateless_first [table.indexCheck index] (List.forall_mem_singleton.mpr nofun) refusal first.symm

theorem pair_blocks_stateless (table : BlockTable) (source target : Nat) (refusal : Refusal)
    (failed : table.pairBlocks source target = .error refusal) : refusal.kind ≠ .state := by
  have first : refused (table.pairBlocks source target) = Check.first _ :=
    table.refused_with source _ _ fun a _ => table.refused_with target _ (fun b => [widthCheck source target a b])
      fun b _ => refused_width source target a b _
  rw [failed] at first
  refine Check.stateless_first _ ?_ refusal first.symm
  exact table.stateless_blocks source target _ fun a b => List.forall_mem_singleton.mpr nofun

theorem pair_while_stateless (table : BlockTable) (pairs : List (Nat × Nat)) (refusal : Refusal)
    (failed : (table.pairWhile pairs).2 = .error refusal) : refusal.kind ≠ .state := by
  induction pairs with
  | nil => exact nomatch failed
  | cons pair rest ih =>
      obtain ⟨source, target⟩ := pair
      rw [pairWhile] at failed
      cases paired : table.pairBlocks source target with
      | ok first =>
          rw [paired] at failed
          exact ih failed
      | error other =>
          rw [paired] at failed
          exact Except.error.inj failed ▸ table.pair_blocks_stateless source target other paired

theorem check_blocks_stateless (table : BlockTable) (pairs : List (Nat × Nat)) (refusal : Refusal)
    (failed : table.checkBlocks pairs = .error refusal) : refusal.kind ≠ .state := by
  induction pairs with
  | nil => exact nomatch failed
  | cons pair rest ih =>
      obtain ⟨source, target⟩ := pair
      rw [checkBlocks] at failed
      cases left : table.block source with
      | error other =>
          rw [left] at failed
          exact Except.error.inj failed ▸ table.block_stateless source other left
      | ok a =>
          cases right : table.block target with
          | error other =>
              rw [left, right] at failed
              exact Except.error.inj failed ▸ table.block_stateless target other right
          | ok b =>
              rw [left, right] at failed
              exact ih failed

theorem plan_pairs_stateless (table : BlockTable) (pairs : List (Nat × Nat)) (store : Store)
    (owned : table.checkOwner store = .ok ()) (refusal : Refusal)
    (failed : (table.planPairs pairs store).2 = .error refusal) : refusal.kind ≠ .state := by
  simp only [planPairs, owned] at failed
  cases checked : table.checkBlocks pairs with
  | ok _ =>
      rw [checked] at failed
      exact table.pair_while_stateless pairs refusal failed
  | error other =>
      rw [checked] at failed
      exact Except.error.inj failed ▸ table.check_blocks_stateless pairs other checked

theorem offer_stateless {σ : Type} (write : σ → String → Bool × σ) (text : String) (printout next : Printout σ)
    (refusal : Refusal) (failed : Printout.offer write text printout = .error (.refused refusal) next) :
    refusal.kind ≠ .state := by
  obtain ⟨sink, offered⟩ := printout
  rw [Printout.offer] at failed
  cases written : write sink text with
  | mk taken after =>
      cases taken with
      | true => simp [written] at failed
      | false =>
          simp only [written, EStateM.Result.error.injEq, Failure.refused.injEq] at failed
          exact failed.1 ▸ nofun

theorem print_from_stateless {σ : Type} (table : BlockTable) (store : Store) (write : σ → String → Bool × σ)
    (steps : Nat) (f : Ref) (path : Path) (printout next : Printout σ) (refusal : Refusal)
    (failed : table.printFrom store write steps f path printout = .error (.refused refusal) next) :
    refusal.kind ≠ .state := by
  induction steps generalizing f path printout with
  | zero => exact nomatch failed
  | succ steps ih =>
      rw [printFrom] at failed
      split at failed
      · exact nomatch failed
      · split at failed
        · obtain ⟨sink, offered⟩ := printout
          exact offer_stateless write _ ⟨sink, _ :: offered⟩ next refusal failed
        · cases read : store.node f with
          | error fault =>
              rw [read] at failed
              exact nomatch failed
          | ok node =>
              simp only [read, bind, EStateM.bind] at failed
              cases low : table.printFrom store write steps node.low ((node.var, false) :: path) printout with
              | ok _ middle =>
                  rw [low] at failed
                  exact ih node.high _ middle failed
              | error failure middle =>
                  rw [low] at failed
                  obtain ⟨rfl, rfl⟩ := EStateM.Result.error.inj failed
                  exact ih node.low _ printout low

theorem print_stateless {σ : Type} (table : BlockTable) (store : Store) (owned : table.checkOwner store = .ok ())
    (write : σ → String → Bool × σ) (f : Ref) (printout next : Printout σ) (refusal : Refusal)
    (failed : table.print store write f printout = .error (.refused refusal) next) : refusal.kind ≠ .state := by
  simp only [print, owned] at failed
  split at failed
  · exact offer_stateless write _ printout next refusal failed
  · exact table.print_from_stateless store write _ f [] printout next refusal failed

end BlockTable

namespace Workspace

section

variable (ws : Workspace) (m t : Nat) (store : Store) (table : BlockTable) (found : ws.stores[m]? = some store)
  (tabled : ws.tables[t]? = some table)

include found tabled

theorem checks_owner (call : Call) (meets : call.Meets ws m t) (checks : List Check)
    (listed : ws.checks call = some checks) :
    ∃ rest, checks = table.ownerChecks store ++ rest ∧ Check.Stateless rest := by
  have onTable : ∀ given, ws.onTable m t given = some checks → checks = given table store := by
    intro given same
    simp only [onTable, found, tabled] at same
    exact (Option.some.inj same).symm
  cases meets with
  | extend sizes => exact ⟨_, onTable _ listed, BlockTable.stateless_extend store sizes⟩
  | overlap left right =>
      exact ⟨_, onTable _ listed, table.stateless_blocks left right _ fun _ _ => List.forall_mem_singleton.mpr nofun⟩
  | teardown => exact ⟨[], (onTable _ listed).trans (List.append_nil _).symm, nofun⟩
  | encode encoding =>
      cases encoding with
      | value index value =>
          exact ⟨_, onTable _ listed, table.stateless_block index _ fun _ => List.forall_mem_singleton.mpr nofun⟩
      | legal index => exact ⟨_, onTable _ listed, table.stateless_block index _ fun _ => nofun⟩
      | equal left right =>
          refine ⟨_, onTable _ listed, table.stateless_blocks left right _ fun _ _ => ?_⟩
          exact List.forall_mem_cons.mpr ⟨nofun, List.forall_mem_singleton.mpr nofun⟩
      | varset indices =>
          refine ⟨_, onTable _ listed, fun check member => ?_⟩
          obtain ⟨index, _, rfl⟩ := List.mem_map.mp member
          exact nofun
  | pairBlocks p source target names current =>
      simp only [Workspace.checks, current] at listed
      exact ⟨_, onTable _ listed, table.stateless_blocks source target _
        (BlockTable.stateless_pairing source target store)⟩
  | pairAll p pairs names current => cases listed
  | blocksOf f => exact ⟨[], (onTable _ listed).trans (List.append_nil _).symm, nofun⟩
  | print f => cases listed
  | printInto f sink => cases listed

theorem owned_printing {σ : Type} (owned : table.checkOwner store = .ok ()) (write : σ → String → Bool × σ) (sink : σ)
    (f : Ref) (refusal : Refusal) (failed : (ws.printing m t write sink f).1 = .error (.refused refusal)) :
    refusal.kind ≠ .state := by
  simp only [printing, table_named ws t table tabled, store_named ws m store found] at failed
  cases printed : table.print store write f ⟨sink, []⟩ with
  | ok _ printout => simp [printed] at failed
  | error failure printout =>
      simp only [printed, Except.error.injEq] at failed
      exact table.print_stateless store owned write f _ printout refusal (failed ▸ printed)

theorem owned_checked (reachable : ws.Reachable) (owned : table.checkOwner store = .ok ()) (command : Command)
    (meets : Call.Meets ws m t (.change command)) (checks : List Check)
    (listed : ws.checks (.change command) = some checks) (refusal : Refusal)
    (failed : (ws.perform command).outcome = .error (.refused refusal)) : refusal.kind ≠ .state := by
  obtain ⟨rest, rfl, stateless⟩ := checks_owner ws m t store table found tabled _ meets checks listed
  have answer := (heeds_perform ws reachable command _ listed).answer
  rw [failed] at answer
  exact table.owned_first store owned rest stateless refusal answer.symm

theorem owned_pair_all (owned : table.checkOwner store = .ok ()) (p : Nat) (pairs : List (Nat × Nat))
    (names : Renaming) (current : ws.renamings[p]? = some names) (refusal : Refusal)
    (failed : (ws.perform (.pairAll m t p pairs)).outcome = .error (.refused refusal)) : refusal.kind ≠ .state := by
  rw [perform, pair_as_run, store_named ws m store found, table_named ws t table tabled,
    (names_found ws p names).mpr current] at failed
  simp only [Workspace.found] at failed
  cases planned : (table.planPairs pairs store).2 with
  | ok _ => simp [planned] at failed
  | error other =>
      simp only [planned, Except.error.injEq, Failure.refused.injEq] at failed
      exact failed ▸ table.plan_pairs_stateless pairs store owned other planned

-- A table takes every call from the store it belongs to, and from any store
-- while it belongs to none: whatever is wrong, it is not where the table belongs.
theorem owned_turn (reachable : ws.Reachable) (owned : table.checkOwner store = .ok ()) (call : Call)
    (meets : call.Meets ws m t) (refusal : Refusal) (failed : (ws.turn call).said.failure = some (.refused refusal)) :
    refusal.kind ≠ .state := by
  have listed : ∀ given, ws.onTable m t given = some (given table store) := by
    intro given
    simp only [onTable, found, tabled]
  have checked : ∀ (command : Command) (_ : Call.Meets ws m t (.change command)) (checks : List Check),
      ws.checks (.change command) = some checks → (ws.turn (.change command)).said.failure = some (.refused refusal) →
        refusal.kind ≠ .state := fun command meets checks given failed =>
    owned_checked ws m t store table found tabled reachable owned command meets checks given refusal
      (failure_error _ _ failed)
  cases meets with
  | extend sizes => exact checked _ (.extend sizes) _ (listed _) failed
  | overlap left right => exact checked _ (.overlap left right) _ (listed _) failed
  | teardown => exact checked _ .teardown _ (listed _) failed
  | encode encoding =>
      have meets : Call.Meets ws m t (.change (.encode m t encoding)) := .encode encoding
      cases encoding with
      | value index value => exact checked _ meets _ (listed _) failed
      | legal index => exact checked _ meets _ (listed _) failed
      | equal left right => exact checked _ meets _ (listed _) failed
      | varset indices => exact checked _ meets _ (listed _) failed
  | pairBlocks p source target names current =>
      refine checked _ (.pairBlocks p source target names current) ?checks ?given failed
      case given =>
        simp only [Workspace.checks, current]
        exact listed _
  | pairAll p pairs names current =>
      have error := failure_error _ _ failed
      exact owned_pair_all ws m t store table found tabled owned p pairs names current refusal error
  | blocksOf f =>
      simp only [turn, look, Said.failure, factOf, table_named ws t table tabled, store_named ws m store found,
        BlockTable.blocksOf, owned] at failed
      cases supported : store.support f with
      | ok support => simp [supported, failureOf] at failed
      | error fault => simp [supported, failureOf] at failed
  | print f => exact owned_printing ws m t store table found tabled owned _ _ f refusal (failure_error _ _ failed)
  | printInto f sink =>
      exact owned_printing ws m t store table found tabled owned _ _ f refusal (failure_error _ _ failed)

end

end Workspace

end DomainDiagram
