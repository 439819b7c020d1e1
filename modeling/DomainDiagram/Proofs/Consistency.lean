import DomainDiagram.Proofs.Histories

set_option autoImplicit false

namespace DomainDiagram

namespace Workspace

-- What a kept result stands for: the operation that its key names, carried out
-- on the functions of the operands. A renaming is known by its identity, and
-- stands for the map it has in every place where the identity is still borne.
def Answers (ws : Workspace) (store : Store) : OpKey → Ref → Prop
  | .combine op f g, r => ∀ env, store.eval r env = op.eval (store.eval f env) (store.eval g env)
  | .negate f, r => ∀ env, store.eval r env = !store.eval f env
  | .choose f g h, r =>
      ∀ env, store.eval r env = if store.eval f env then store.eval g env else store.eval h env
  | .quantify q f set, r =>
      ∃ vars, store.members set = .ok vars ∧ ∀ env, store.eval r env = q.across vars (store.eval f) env
  | .rename f id, r =>
      ∃ image : Var → Var,
        (∀ (p : Nat) (names : Renaming), ws.renamings[p]? = some names → names.id = id → names.image = image) ∧
        ∀ env, store.eval r env = store.eval f fun v => env (image v)

-- What holds of a store between any two commands: its parts agree, and each
-- result in the table is in its slot, names nodes in use only, and is right.
structure Consistent (ws : Workspace) (store : Store) : Prop where
  sound : store.Sound
  memo : store.memo.Sound
  operands : ∀ (i : Nat) (key : OpKey) (r : Ref), store.memo.slots[i]? = some (key, r) →
    ∀ f ∈ key.operands, store.Live f
  result : ∀ (i : Nat) (key : OpKey) (r : Ref), store.memo.slots[i]? = some (key, r) → store.Live r
  answers : ∀ (i : Nat) (key : OpKey) (r : Ref), store.memo.slots[i]? = some (key, r) → ws.Answers store key r

theorem settled_answers (ws : Workspace) (book : Book) (booked : ws.Booked book) (store : Store)
    (sound : store.Sound) (key : OpKey) (r : Ref) (operands : ∀ f ∈ key.operands, store.Live f)
    (settled : store.Settled book key r) : ws.Answers store key r := by
  cases key with
  | combine op f g => exact Store.combines_eval store sound op f g r settled
  | negate f => exact Store.negates_eval store sound f r settled
  | choose f g h => exact Store.chooses_eval store sound f g h r settled
  | quantify q f set =>
      have live : store.Live set := operands set (by simp [OpKey.operands])
      obtain ⟨vars, members⟩ := Store.members_exist store sound set live
      exact ⟨vars, Store.members_ok store sound set live vars members,
        Store.quantifies_eval store sound q f set r settled vars members⟩
  | rename f id =>
      obtain ⟨image, entered, renames⟩ := settled
      refine ⟨image, fun p names found same => ?_, Store.renames_eval store sound image f r renames⟩
      have current := booked.current p names found
      rw [same, entered] at current
      exact (Option.some.inj current).symm

theorem reachable_consistent (ws : Workspace) (reachable : ws.Reachable) (m : Nat) (store : Store)
    (found : ws.stores[m]? = some store) : ws.Consistent store := by
  obtain ⟨book, booked, trusted⟩ := reachable_trusted ws reachable
  have coherent := trusted m store found
  have kept : ∀ (i : Nat) (key : OpKey) (r : Ref), store.memo.slots[i]? = some (key, r) →
      (∀ f ∈ key.operands, store.Live f) ∧ store.Settled book key r := by
    intro i key r slot
    have known := store.memo.found_slot coherent.memo i key r slot
    exact ⟨coherent.operands key r known, coherent.settled key r known⟩
  refine ⟨coherent.sound, coherent.memo, fun i key r slot => (kept i key r slot).1,
    fun i key r slot => ?_, fun i key r slot => ?_⟩
  · obtain ⟨operands, settled⟩ := kept i key r slot
    exact Store.settled_live store coherent.sound book key r operands settled
  · obtain ⟨operands, settled⟩ := kept i key r slot
    exact settled_answers ws book booked store coherent.sound key r operands settled

theorem conjunction_consistent :
    ∃ (ws : Workspace) (store : Store),
      ws = empty.run [.newStore {}, .newVars 0 2, .construct 0 (.literal 1 true),
        .construct 0 (.literal 2 true), .construct 0 (.combine .and 3 2)] ∧
      ws.stores[0]? = some store ∧ store.memo.find? (.combine .and 2 3) = some 4 ∧ ws.Consistent store :=
  ⟨_, _, rfl, rfl, by decide +kernel, reachable_consistent _ ⟨_, rfl⟩ 0 _ rfl⟩

end Workspace
end DomainDiagram
