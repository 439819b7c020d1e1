import DomainDiagram.Proofs.Scripts

set_option autoImplicit false

namespace DomainDiagram

open Store

namespace Renaming

theorem get_put (names : Renaming) (fresh : Nat) (v w u : Var) :
    (names.put fresh v w).get? u = if u = v then some w else names.get? u := by
  rw [get?, put, Std.TreeMap.getElem?_insert]
  split
  · next same => rw [if_pos (Nat.compare_eq_eq.mp same).symm]
  · next other =>
      rw [if_neg fun same => other (Nat.compare_eq_eq.mpr same.symm)]
      rfl

theorem image_put (names : Renaming) (fresh : Nat) (v w u : Var) :
    (names.put fresh v w).image u = if u = v then w else names.image u := by
  rw [image, get_put]
  split
  · rfl
  · rfl

theorem put_all_image (names : Renaming) (fresh : Nat) (pairs : List (Var × Var)) (once : (pairs.map (·.1)).Nodup) :
    (∀ pair ∈ pairs, (names.putAll fresh pairs).1.image pair.1 = pair.2) ∧
      ∀ v, v ∉ pairs.map (·.1) → (names.putAll fresh pairs).1.image v = names.image v := by
  induction pairs generalizing names fresh with
  | nil => exact ⟨nofun, fun _ _ => rfl⟩
  | cons pair rest ih =>
      obtain ⟨v, w⟩ := pair
      obtain ⟨first, later⟩ := List.nodup_cons.mp once
      obtain ⟨inside, outside⟩ := ih (names.put fresh v w) (fresh + 1) later
      refine ⟨List.forall_mem_cons.mpr ⟨?_, inside⟩, fun u absent => ?_⟩
      · rw [putAll, outside v first, image_put, if_pos rfl]
      · obtain ⟨other, further⟩ : u ≠ v ∧ u ∉ rest.map (·.1) := by simpa using absent
        rw [putAll, outside u further, image_put, if_neg other]

structure Sends (names : Renaming) (sources targets : List Var) : Prop where
  onto : sources.map names.image = targets
  others : ∀ v, v ∉ sources → names.image v = v

theorem put_zip_sends (names : Renaming) (empty : names.isEmpty = true) (fresh : Nat) (sources targets : List Var)
    (once : sources.Nodup) (same : sources.length = targets.length) :
    (names.putAll fresh (sources.zip targets)).1.Sends sources targets := by
  have firsts : (sources.zip targets).map (·.1) = sources := List.map_fst_zip (Nat.le_of_eq same)
  obtain ⟨inside, outside⟩ := put_all_image names fresh (sources.zip targets) (firsts.symm ▸ once)
  constructor
  case onto =>
    calc sources.map (names.putAll fresh (sources.zip targets)).1.image
      _ = ((sources.zip targets).map (·.1)).map (names.putAll fresh (sources.zip targets)).1.image := by rw [firsts]
      _ = (sources.zip targets).map (·.2) := by
          rw [List.map_map]
          exact List.map_congr_left inside
      _ = targets := List.map_snd_zip (Nat.le_of_eq same.symm)
  case others =>
    intro v absent
    rw [outside v (firsts.symm ▸ absent), names.image_empty empty]

theorem sends_code (names : Renaming) (a b : Block) (sends : names.Sends b.vars a.vars) (env : Var → Bool) :
    b.code (fun v => env (names.image v)) = a.code env := by
  rw [Block.code, spelt_map, Block.bits, List.map_reverse, sends.onto]
  rfl

theorem sends_allocated (names : Renaming) (sources targets : List Var) (sends : names.Sends sources targets)
    (count : Nat) (fits : ∀ v ∈ targets, 0 < v ∧ v ≤ count) (v : Var) (positive : 0 < v) (bound : v ≤ count) :
    0 < names.image v ∧ names.image v ≤ count := by
  by_cases source : v ∈ sources
  · exact fits _ (sends.onto ▸ List.mem_map_of_mem source)
  · rw [sends.others v source]
    exact ⟨positive, bound⟩

end Renaming

namespace BlockTable

theorem plan_pair_ok (table : BlockTable) (source target : Nat) (a b : Block) (store : Store)
    (owned : table.owner = some store.id) (first : table.blocks[source]? = some a)
    (second : table.blocks[target]? = some b) (same : a.width = b.width) :
    table.planPair source target store = ([⟨source, target, a.vars.zip b.vars⟩], .ok ()) := by
  have mine := check_owner_mine table store owned
  simp only [planPair, mine, pairWhile, pairBlocks, block, first, second, bind, Except.bind, pure, Except.pure, same,
    ne_eq, not_true_eq_false, if_false]

end BlockTable

namespace Workspace

theorem means_stores (ws later : Workspace) (same : later.stores = ws.stores) (m : Nat) (f : Ref)
    (fn : (Var → Bool) → Bool) (means : ws.Means m f fn) : later.Means m f fn := by
  obtain ⟨store, found, live, value⟩ := means
  exact ⟨store, same ▸ found, live, value⟩

theorem pair_blocks_sent (ws : Workspace) (m t p source target : Nat) (store : Store) (table : BlockTable)
    (names : Renaming) (found : ws.stores[m]? = some store) (tabled : ws.tables[t]? = some table)
    (owned : table.owner = some store.id) (current : ws.renamings[p]? = some names) (empty : names.isEmpty = true)
    (a b : Block) (first : table.blocks[source]? = some a) (second : table.blocks[target]? = some b)
    (same : a.width = b.width) (once : a.vars.Nodup) :
    ∃ sent later, (ws.perform (.pairBlocks m t p source target)).outcome = .ok .done ∧
      (ws.perform (.pairBlocks m t p source target)).workspace = later ∧ sent.Sends a.vars b.vars ∧
      later.stores = ws.stores ∧ later.tables = ws.tables ∧ later.renamings[p]? = some sent := by
  have planned := BlockTable.plan_pair_ok table source target a b store owned first second same
  have named := (names_found ws p names).mpr current
  have reply : ws.perform (.pairBlocks m t p source target) =
      ⟨.ok .done, [(⟨source, target, a.vars.zip b.vars⟩ : BlockPair)].flatMap Event.ofPair,
        ws.setNames p (names.putAll ws.nextRenaming (a.vars.zip b.vars)).1
          (names.putAll ws.nextRenaming (a.vars.zip b.vars)).2⟩ := by
    simp only [perform, pair_as_run, Workspace.found, Workspace.store, found, Workspace.table, tabled, named, planned,
      Renaming.putBlocks]
  have sends := Renaming.put_zip_sends names empty ws.nextRenaming a.vars b.vars once same
  refine ⟨_, _, congrArg Reply.outcome reply, congrArg Reply.workspace reply, sends, rfl, rfl, ?_⟩
  exact Array.getElem?_setIfInBounds_self_of_lt (Array.getElem?_eq_some_iff.mp current).1

def Paired (ws : Workspace) (p : Nat) (a b : Block) : Prop :=
  ∃ names, ws.renamings[p]? = some names ∧ names.Sends a.vars b.vars

theorem rewrites_leave (old new : Workspace) (changed : Option Nat) (rewrites : Rewrites old changed new) (p : Nat)
    (other : changed ≠ some p) (names : Renaming) (current : old.renamings[p]? = some names) :
    new.renamings[p]? = some names := by
  cases rewrites with
  | same _ same => exact same.1 ▸ current
  | added extra next _ => exact push_found old.renamings extra names p current
  | changed q fresh next asked _ =>
      have apart : q ≠ p := fun same => other (asked.trans (congrArg some same))
      exact (Array.getElem?_setIfInBounds_ne apart).trans current

theorem run_paired (ws : Workspace) (p : Nat) (a b : Block) (paired : ws.Paired p a b) (commands : List Command)
    (leave : ∀ command ∈ commands, command.changed ≠ some p) : (ws.run commands).Paired p a b := by
  induction commands generalizing ws with
  | nil => exact paired
  | cons command rest ih =>
      obtain ⟨first, others⟩ := List.forall_mem_cons.mp leave
      obtain ⟨names, current, sends⟩ := paired
      have kept := rewrites_leave ws _ command.changed (perform_rewrites ws command) p first names current
      exact ih _ ⟨names, kept, sends⟩ others

end Workspace
end DomainDiagram
