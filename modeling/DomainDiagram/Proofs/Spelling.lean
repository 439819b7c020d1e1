import DomainDiagram.Proofs.Blocks
import DomainDiagram.Proofs.Encoders

set_option autoImplicit false

namespace DomainDiagram

def Store.Spares (store : Store) (n : Nat) : Prop := ∀ f, store.tally f + n < Action.countBound

-- No count is within three of the largest that there can be.
def Store.Roomy (store : Store) : Prop := ∀ f, store.tally f + 3 < Action.countBound

theorem Store.spares_fewer (store : Store) (n few : Nat) (fewer : few ≤ n) (room : store.Spares n) : store.Spares few :=
  fun f => Nat.lt_of_le_of_lt (Nat.add_le_add_left fewer _) (room f)

theorem Store.roomy_of_counts (store : Store) (n : Nat) (fits : n + 3 < Action.countBound)
    (small : ∀ count ∈ store.counts.toList, count ≤ n) : store.Roomy := by
  intro f
  refine Nat.lt_of_le_of_lt (Nat.add_le_add_right ?_ 3) fits
  rw [Store.tally]
  cases counted : store.counts[f]? with
  | none => exact Nat.zero_le n
  | some count => exact small count (Array.mem_toList_iff.mpr (Array.mem_of_getElem? counted))

namespace Action

open Store

def Delivers {ε : Type} (book : Book) (act : EStateM ε Store Ref) (store : Store) (fn : (Var → Bool) → Bool) : Prop :=
  ∃ r next, act store = .ok r next ∧ (Follows store next ∧ next.Coherent book) ∧
    (∀ f, next.tally f = store.tally f) ∧ next.Live r ∧ ∀ env, next.eval r env = fn env

theorem gives_delivers (book : Book) (act : Action Ref) (store : Store) (fn : (Var → Bool) → Bool)
    (gives : Gives book act store fn) : Delivers book act store fn := by
  obtain ⟨r, next, done, advanced, live, value⟩ := gives
  exact ⟨r, next, done, ⟨advances_follows book store next advanced, advanced.coherent⟩,
    tally_built store next advanced.built, live, value⟩

theorem roomy_follows (old new : Store) (same : ∀ f, new.tally f = old.tally f) (room : old.Roomy) : new.Roomy :=
  fun f => same f ▸ room f

theorem spares_uncrowded (store : Store) (n : Nat) (room : store.Spares n) (fault : Fault) :
    ¬ store.Crowded n fault := by
  rintro ⟨f, _, crowded⟩
  exact Nat.not_le_of_lt (room f) crowded

theorem carries_delivers (book : Book) (act : Action Ref) (store : Store) (fn : (Var → Bool) → Bool) (n : Nat)
    (room : store.Spares n) (ends : Ends act store (fun r next => store.Carries book [] next ∧ next.Stands r fn)
      fun fault _ => store.Crowded n fault) : Delivers book act store fn := by
  obtain ⟨r, next, done, carries, stands⟩ :=
    ends_done act store _ _ ends fun fault _ => spares_uncrowded store n room fault
  exact ⟨r, next, done, ⟨carries.follows, carries.coherent⟩, carries.tally, stands⟩

theorem spell_delivers (book : Book) (bits : List Var) (value : Nat) (done : Ref) (store : Store)
    (coherent : store.Coherent book) (room : store.Spares 1) (live : store.Live done)
    (allocated : ∀ v ∈ bits, 0 < v ∧ v ≤ store.numVars) :
    Delivers book (spell bits value done) store
      fun env => decide (spelt bits env = value % 2 ^ bits.length) && store.eval done env :=
  carries_delivers book _ store _ 1 room (spell_ends book store bits allocated value done _ store
    (carries_refl book store coherent) ⟨live, fun _ => rfl⟩)

end Action

namespace BlockTable

open Store DomainDiagram.Action

theorem value_spells (book : Book) (table : BlockTable) (index value : Nat) (block : Block) (store : Store)
    (coherent : store.Coherent book) (room : store.Spares 1) (owned : table.owner = some store.id)
    (listed : table.blocks[index]? = some block) (allocated : ∀ v ∈ block.vars, 0 < v ∧ v ≤ store.numVars)
    (small : value ≤ block.size) : Delivers book (table.valueIs index value) store
      fun env => decide (block.code env = value % 2 ^ block.width) := by
  have planned : table.planValue index value store = .ok block := by
    have mine := check_owner_mine table store owned
    simp only [planValue, BlockTable.block, mine, listed, bind, Except.bind, pure, Except.pure]
    rw [if_neg (Nat.not_lt_of_le small)]
  obtain ⟨r, next, done, kept, tally, live, known⟩ := spell_delivers book block.bits value 1 store coherent room
    (.inl (Nat.le_refl 1)) fun v member => allocated v (List.mem_reverse.mp member)
  refine ⟨r, next, ?_, kept, tally, live, fun env => ?_⟩
  · simp only [valueIs, Request.afterCheck, planned, Request.perform, done]
  · have width : block.bits.length = block.width := List.length_reverse
    simp only [known, width, eval_one, Bool.and_true]
    rfl

end BlockTable

namespace Workspace

theorem encode_reply (ws : Workspace) (m t : Nat) (encoding : Encoding) (store next : Store) (table : BlockTable)
    (r : Ref) (found : ws.stores[m]? = some store) (tabled : ws.tables[t]? = some table)
    (done : encoding.run table store = .ok r next) :
    ws.perform (.encode m t encoding) = ⟨.ok (.ref r), [], ws.setStore m next⟩ := by
  simp only [perform, encode, Workspace.table, tabled, Workspace.found, on_store_run, found, done]

end Workspace
end DomainDiagram
