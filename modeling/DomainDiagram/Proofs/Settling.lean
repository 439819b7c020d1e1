import DomainDiagram.Proofs.Encoders
import DomainDiagram.Proofs.Shapes

set_option autoImplicit false

namespace DomainDiagram

open Store

namespace Action

-- A request that fails has left all counts as they were, unless it came upon
-- one that was full.
def Settles {α : Type} (request : Request α) (store : Store) : Prop :=
  Ends request store (fun _ _ => True) fun failure next =>
    failure.overflows = true ∨ ∀ f, next.tally f = store.tally f

theorem settles_ends {α : Type} (request : Request α) (store : Store) (done : α → Store → Prop)
    (broken : Failure → Store → Prop) (ends : Ends request store done broken)
    (settled : ∀ failure next, broken failure next → failure.overflows = true ∨ ∀ f, next.tally f = store.tally f) :
    Settles request store := ends_mono request store _ _ _ _ ends (fun _ _ _ => trivial) settled

theorem settles_perform {α : Type} (act : Action α) (store : Store) (done : α → Store → Prop)
    (broken : Fault → Store → Prop) (ends : Ends act store done broken)
    (settled : ∀ fault next, broken fault next → fault.overflows = true ∨ ∀ f, next.tally f = store.tally f) :
    Settles (Request.perform act) store :=
  ends_perform act store _ _ (ends_mono act store _ _ _ _ ends (fun _ _ _ => trivial) settled)

theorem settles_after_check {α β : Type} (plan : Store → Except Refusal α) (act : α → Action β) (store : Store)
    (performs : ∀ a, plan store = .ok a → Settles (Request.perform (act a)) store) :
    Settles (Request.afterCheck plan act) store := by
  unfold Settles Ends Request.afterCheck
  cases planned : plan store with
  | ok a => exact performs a planned
  | error refusal => exact .inr fun _ => rfl

theorem settles_built {α : Type} (book : Book) (act : Action α) (built : Built book act) (store : Store)
    (coherent : store.Coherent book) : Settles (Request.perform act) store :=
  settles_perform act store _ _ (built store coherent) fun _ next advanced =>
    .inr (tally_built store next advanced.built)

theorem settles_unchanged {α : Type} (act : Action α) (store : Store) (done : α → Store → Prop)
    (ends : Ends act store done fun _ next => next = store) : Settles (Request.perform act) store :=
  settles_perform act store _ _ ends fun _ _ same => .inr fun _ => same ▸ rfl

theorem settles_hold (store : Store) (f : Ref) : Settles (Request.perform (hold f)) store :=
  settles_unchanged _ store _ (hold_tally store f)

theorem settles_release (store : Store) (f : Ref) : Settles (Request.perform (release f)) store :=
  settles_unchanged _ store _ (ends_mono _ store _ _ _ _ (release_tally store f) (fun _ _ known => known)
    fun _ _ known => known.1)

theorem settles_collect (store : Store) (sound : store.Sound) : Settles (Request.perform collect) store := by
  obtain ⟨sweep, next, done, _⟩ := collect_collected store sound
  unfold Settles Ends Request.perform
  rw [done]
  trivial

theorem settles_new_vars (store : Store) (n : Nat) : Settles (Request.newVars n) store :=
  settles_after_check _ _ store fun _ _ => trivial

theorem settles_crowded {α : Type} (act : Action α) (store : Store) (n : Nat) (done : α → Store → Prop)
    (ends : Ends act store done fun fault _ => store.Crowded n fault) : Settles (Request.perform act) store := by
  refine settles_perform act store _ _ ends fun fault _ crowded => .inl ?_
  obtain ⟨f, rfl, _⟩ := crowded
  rfl

end Action

namespace BlockTable

open Store DomainDiagram.Action

theorem settles_extend (book : Book) (table : BlockTable) (sizes : List Nat) (store : Store)
    (coherent : store.Coherent book) : Settles (table.extend sizes) store :=
  settles_ends _ store _ _ (extend_ends book table sizes store coherent) fun _ _ known => known.2

theorem settles_overlap (book : Book) (table : BlockTable) (left right : Nat) (store : Store)
    (coherent : store.Coherent book) : Settles (table.overlap left right) store :=
  settles_ends _ store _ _ (overlap_ends book table left right store coherent) fun _ _ known => .inr known.2

theorem settles_encoding (book : Book) (table : BlockTable) (encoding : Encoding) (store : Store)
    (coherent : store.Coherent book) (fits : (table.owner = none ∨ table.owner = some store.id) →
      ∀ (i : Nat) (block : Block), table.blocks[i]? = some block → block.Fits store) :
    Settles (encoding.run table) store := by
  have start := stands_true store
  have carries := carries_refl book store coherent
  cases encoding with
  | value index value =>
      refine settles_after_check _ _ store fun block planned => ?_
      obtain ⟨owned, listed⟩ := plan_value_ok table index value store block planned
      have allocated : ∀ v ∈ block.bits, 0 < v ∧ v ≤ store.numVars := fun v member =>
        (fits owned index block listed).allocated v (List.mem_reverse.mp member)
      exact settles_crowded _ store 1 _ (spell_ends book store block.bits allocated value 1 _ store carries start)
  | legal index =>
      refine settles_after_check _ _ store fun block planned => ?_
      obtain ⟨owned, listed⟩ := plan_block_ok table index store block planned
      have allocated : ∀ v ∈ block.bits, 0 < v ∧ v ≤ store.numVars := fun v member =>
        (fits owned index block listed).allocated v (List.mem_reverse.mp member)
      have held := carries_terminal book store [] 1 (Nat.le_refl 1) store carries
      exact settles_crowded _ store 2 _ (at_most_ends book store block.bits allocated _ 1 _ store held start)
  | equal left right =>
      refine settles_after_check _ _ store fun blocks planned => ?_
      obtain ⟨a, b⟩ := blocks
      obtain ⟨owned, first, second⟩ := plan_equal_ok table left right store a b planned
      have allocated : ∀ pair ∈ a.bits.zip b.bits,
          (0 < pair.1 ∧ pair.1 ≤ store.numVars) ∧ 0 < pair.2 ∧ pair.2 ≤ store.numVars := by
        intro pair member
        obtain ⟨inA, inB⟩ := List.of_mem_zip member
        exact ⟨(fits owned left a first).allocated pair.1 (List.mem_reverse.mp inA),
          (fits owned right b second).allocated pair.2 (List.mem_reverse.mp inB)⟩
      exact settles_crowded _ store 3 _ (alike_all_ends book store _ allocated store carries)
  | varset indices =>
      refine settles_after_check _ _ store fun sets planned => ?_
      obtain ⟨owned, listed⟩ := plan_union_ok table indices store sets planned
      have live : ∀ set ∈ sets, store.Live set := by
        intro set member
        obtain ⟨i, block, found, rfl⟩ := listed set member
        exact (fits owned i block found).live
      exact settles_crowded _ store 1 _ (union_ends book store sets coherent.sound live 1 _ store carries start)

end BlockTable

namespace Workspace

open DomainDiagram.Action

def Even (ws later : Workspace) : Prop :=
  ∀ (m : Nat) (store : Store), ws.stores[m]? = some store →
    ∃ next, later.stores[m]? = some next ∧ ∀ f, next.tally f = store.tally f

theorem even_same (ws later : Workspace) (stores : later.stores = ws.stores) : ws.Even later :=
  fun _ store found => ⟨store, stores ▸ found, fun _ => rfl⟩

theorem even_set (ws : Workspace) (m : Nat) (store next : Store) (found : ws.stores[m]? = some store)
    (even : ∀ f, next.tally f = store.tally f) : ws.Even (ws.setStore m next) := by
  intro k other there
  by_cases same : k = m
  · subst same
    obtain rfl := Option.some.inj (found.symm.trans there)
    exact ⟨next, set_store_found ws k store next found, even⟩
  · exact ⟨other, (Array.getElem?_setIfInBounds_ne (Ne.symm same)).trans there, fun _ => rfl⟩

theorem answer_succeeds (answer : Answer) (failure : Failure) :
    (Except.ok answer : Except Failure Answer) ≠ .error failure := nofun

theorem failed_on_store {α : Type} (ws : Workspace) (m : Nat) (request : Request α)
    (answer : α → Store → Workspace → Reply)
    (settles : ∀ store, ws.stores[m]? = some store → Settles request store)
    (answers : ∀ a store later failure, (answer a store later).outcome ≠ .error failure) (failure : Failure)
    (failed : (ws.onStore m request answer).outcome = .error failure) (room : failure.overflows = false) :
    ws.Even (ws.onStore m request answer).workspace := by
  rcases on_store_cases ws m request answer with
    absent | ⟨store, found, ⟨a, next, _, answered⟩ | ⟨other, next, ran, refused⟩⟩
  · rw [absent]
    exact even_same ws _ rfl
  · rw [answered] at failed
    exact absurd failed (answers a next _ failure)
  · rw [refused] at failed ⊢
    obtain rfl : other = failure := Except.error.inj failed
    have settled := settles store found
    rw [Settles, Ends, ran] at settled
    rcases settled with full | even
    · cases full.symm.trans room
    · exact even_set ws m store next found even

theorem failed_found {α : Type} (ws : Workspace) (named : Except Failure α) (next : α → Reply) (failure : Failure)
    (failed : (ws.found named next).outcome = .error failure)
    (even : ∀ a, named = .ok a → (next a).outcome = .error failure → ws.Even (next a).workspace) :
    ws.Even (ws.found named next).workspace := by
  cases outcome : named with
  | ok a =>
      rw [outcome] at failed
      exact even a outcome failed
  | error other => exact even_same ws _ rfl

theorem found_stores {α : Type} (ws : Workspace) (named : Except Failure α) (next : α → Reply)
    (same : ∀ a, (next a).workspace.stores = ws.stores) : (ws.found named next).workspace.stores = ws.stores := by
  cases named with
  | ok a => exact same a
  | error failure => rfl

theorem pair_as_stores (ws : Workspace) (m t p : Nat)
    (plan : BlockTable → Store → List BlockPair × Except Refusal Unit) :
    (ws.pairAs m t p plan).workspace.stores = ws.stores := by
  rw [pair_as_run]
  exact found_stores ws _ _ fun _ => found_stores ws _ _ fun _ => found_stores ws _ _ fun _ => rfl

theorem pair_stores (ws : Workspace) (m p : Nat) (v w : Var) : (ws.pair m p v w).workspace.stores = ws.stores := by
  refine found_stores ws _ _ fun store => found_stores ws _ _ fun names => ?_
  split <;> rfl

theorem owned_fits (ws : Workspace) (journal : Journal) (fair : Fair ws journal) (m t : Nat) (store : Store)
    (table : BlockTable) (found : ws.stores[m]? = some store) (tabled : ws.tables[t]? = some table)
    (owned : table.owner = none ∨ table.owner = some store.id) (i : Nat) (block : Block)
    (listed : table.blocks[i]? = some block) : block.Fits store := by
  have accounted := fair_accounted ws journal fair
  rcases bound_owned ws accounted.bound t store.id table tabled owned with ⟨_, empty⟩ | mine
  · exact absurd listed (table.unlisted empty i block)
  · exact accounted.fitted m t store table found tabled mine i block listed

-- The counts cover the blocks of a table, so that a teardown that is not
-- refused gives up every one of them.
theorem owned_teardown (ws : Workspace) (journal : Journal) (fair : Fair ws journal) (m t : Nat) (store : Store)
    (table : BlockTable) (found : ws.stores[m]? = some store) (tabled : ws.tables[t]? = some table)
    (owned : table.owner = none ∨ table.owner = some store.id) :
    ∃ next, ws.teardown m t = ⟨.ok .done, [.tornDown table.size], (ws.setStore m next).setTable t .empty⟩ ∧
      ∀ f, next.tally f + Block.uses table.blocks.toList f = store.tally f := by
  have accounted := fair_accounted ws journal fair
  obtain ⟨book, _, trusted⟩ := reachable_trusted ws (fair_reachable ws journal fair)
  have enough := uses_covered store.id table store (bound_owned ws accounted.bound t store.id table tabled owned)
    (covered_table ws journal accounted.covered m t store table found tabled)
  have known := BlockTable.release_all_ends book table.blocks.toList store (trusted m store found)
  obtain ⟨_, next, released, _, tally⟩ := ends_done _ store _ _ known fun _ _ broken => by
    obtain ⟨_, f, short⟩ := broken
    exact Nat.not_lt_of_le (enough f) short
  have torn : table.teardown store = (.ok (), .empty, next) := by
    simp only [BlockTable.teardown, (BlockTable.check_owner_ok table store).mpr owned, released]
  refine ⟨next, ?_, tally⟩
  simp only [teardown_run, Workspace.table, tabled, Workspace.found, found, torn]

theorem failed_teardown (ws : Workspace) (journal : Journal) (fair : Fair ws journal) (m t : Nat) (failure : Failure)
    (failed : (ws.teardown m t).outcome = .error failure) :
    (∀ fault, failure ≠ .broken fault) ∧ (ws.teardown m t).workspace.stores = ws.stores := by
  cases tabled : ws.tables[t]? with
  | none =>
      simp only [teardown_run, Workspace.table, tabled, Workspace.found] at failed ⊢
      obtain rfl := Except.error.inj failed
      exact ⟨by simp, rfl⟩
  | some table =>
      cases found : ws.stores[m]? with
      | none =>
          simp only [teardown_run, Workspace.table, tabled, Workspace.found, found] at failed ⊢
          obtain rfl := Except.error.inj failed
          exact ⟨by simp, rfl⟩
      | some store =>
          cases owned : table.checkOwner store with
          | error refusal =>
              have torn : table.teardown store = (.error (.refused refusal), table, store) := by
                simp only [BlockTable.teardown, owned]
              simp only [teardown_run, Workspace.table, tabled, Workspace.found, found, torn] at failed ⊢
              obtain rfl := Except.error.inj failed
              exact ⟨by simp, set_same ws.stores m store found⟩
          | ok _ =>
              obtain ⟨next, done, _⟩ := owned_teardown ws journal fair m t store table found tabled
                ((BlockTable.check_owner_ok table store).mp owned)
              rw [done] at failed
              cases failed

theorem failed_even (ws : Workspace) (journal : Journal) (fair : Fair ws journal) (command : Command)
    (failure : Failure) (failed : (ws.perform command).outcome = .error failure) (room : failure.overflows = false) :
    ws.Even (ws.perform command).workspace := by
  obtain ⟨book, booked, trusted⟩ := reachable_trusted ws (fair_reachable ws journal fair)
  have onStore : ∀ {α : Type} (m : Nat) (request : Request α) (answer : α → Store → Workspace → Reply),
      (∀ store, ws.stores[m]? = some store → Settles request store) →
      (∀ a store later failure, (answer a store later).outcome ≠ .error failure) →
      (ws.onStore m request answer).outcome = .error failure → ws.Even (ws.onStore m request answer).workspace :=
    fun m request answer settles answers failed =>
      failed_on_store ws m request answer settles answers failure failed room
  cases command with
  | newStore config =>
      simp only [perform, new_store_run] at failed ⊢
      by_cases fits : config.capacityFits
      · cases made : Store.create ws.nextStore config with
        | ok store =>
            simp only [if_pos fits, made] at failed
            cases failed
        | error fault =>
            simp only [if_pos fits]
            exact even_same ws _ rfl
      · simp only [if_neg fits]
        exact even_same ws _ rfl
  | newVars m n =>
      exact onStore m _ _ (fun store _ => settles_new_vars store n) (fun _ _ _ _ => answer_succeeds _ _) failed
  | construct m construction =>
      have built := built_construction book construction
      exact onStore m _ _ (fun store found => settles_built book _ built store (trusted m store found))
        (fun _ _ _ _ => answer_succeeds _ _) failed
  | rename m p f =>
      refine failed_found ws _ _ failure failed fun names named failed => ?_
      have built := built_rename book names (booked.current p names ((names_found ws p names).mp named)) f
      exact onStore m _ _ (fun store found => settles_built book _ built store (trusted m store found))
        (fun _ _ _ _ => answer_succeeds _ _) failed
  | hold m f => exact onStore m _ _ (fun store _ => settles_hold store f) (fun _ _ _ _ => answer_succeeds _ _) failed
  | release m f =>
      exact onStore m _ _ (fun store _ => settles_release store f) (fun _ _ _ _ => answer_succeeds _ _) failed
  | collect m =>
      exact onStore m _ _ (fun store found => settles_collect store (trusted m store found).sound)
        (fun _ _ _ _ => answer_succeeds _ _) failed
  | extend m t sizes =>
      refine failed_found ws _ _ failure failed fun table _ failed => ?_
      exact onStore m _ _ (fun store found => table.settles_extend book sizes store (trusted m store found))
        (fun _ _ _ _ => answer_succeeds _ _) failed
  | overlap m t left right =>
      refine failed_found ws _ _ failure failed fun table _ failed => ?_
      exact onStore m _ _ (fun store found => table.settles_overlap book left right store (trusted m store found))
        (fun _ _ _ _ => answer_succeeds _ _) failed
  | encode m t encoding =>
      refine failed_found ws _ _ failure failed fun table named failed => ?_
      have tabled := table_found ws t table named
      refine onStore m _ _ (fun store found => ?_) (fun _ _ _ _ => answer_succeeds _ _) failed
      exact table.settles_encoding book encoding store (trusted m store found) fun owned =>
        owned_fits ws journal fair m t store table found tabled owned
  | teardown m t => exact even_same ws _ (failed_teardown ws journal fair m t failure failed).2
  | newTable => cases failed
  | newRenaming => cases failed
  | copyRenaming p => exact even_same ws _ (found_stores ws _ _ fun _ => rfl)
  | clearRenaming p => exact even_same ws _ (found_stores ws _ _ fun _ => rfl)
  | pair m p v w => exact even_same ws _ (pair_stores ws m p v w)
  | pairBlocks m t p source target => exact even_same ws _ (pair_as_stores ws m t p _)
  | pairAll m t p pairs => exact even_same ws _ (pair_as_stores ws m t p _)

end Workspace
end DomainDiagram
