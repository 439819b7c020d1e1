import DomainDiagram.Proofs.Canonicity
import DomainDiagram.Proofs.Collection
import DomainDiagram.Proofs.Cubes

set_option autoImplicit false

namespace DomainDiagram

namespace Store

theorem looks_ok {α β : Type} (look : α → Except Fault β) (items : List α)
    (each : ∀ a ∈ items, ∃ b, look a = .ok b) :
    ∃ seen, items.mapM look = .ok seen ∧ ∀ b, b ∈ seen ↔ ∃ a ∈ items, look a = .ok b := by
  induction items with
  | nil => exact ⟨[], rfl, by simp⟩
  | cons a rest ih =>
      obtain ⟨b, first⟩ := each a List.mem_cons_self
      obtain ⟨seen, others, members⟩ := ih fun c inside => each c (List.mem_cons_of_mem a inside)
      refine ⟨b :: seen, ?_, fun c => ?_⟩
      · rw [List.mapM_cons, first, others]
        rfl
      · have here : (c = b) ↔ look a = .ok c := by rw [first, Except.ok.injEq, eq_comm]
        simp only [List.mem_cons, members, here, or_and_right, exists_or, exists_eq_left]

theorem var_of_tests (store : Store) (f : Ref) (node : Node) (tests : store.Tests f node) :
    store.varOf f = .ok node.var := by
  simp [varOf, tests.1, node_tests store f node tests]

theorem support_reaches (store : Store) (sound : store.Sound) (f : Ref) (live : store.Live f) :
    ∃ vars, store.support f = .ok vars ∧
      ∀ v, v ∈ vars ↔ ∃ g node, store.Reaches f g ∧ store.Tests g node ∧ node.var = v := by
  obtain ⟨alive, done, closed, roots, reached⟩ := reach_ok store sound [f] (by simpa using live)
  have inside : f ∈ alive := roots f List.mem_cons_self
  have decisions : ∀ g, g ∈ alive.toList.filter (!·.isTerminal) ↔
      store.Reaches f g ∧ ∃ node, store.Tests g node := by
    intro g
    rw [List.mem_filter, Std.TreeSet.mem_toList]
    constructor
    · rintro ⟨member, decision⟩
      have large : 2 ≤ g := by
        rcases Ref.terminal_or g with small | large
        · simp [small] at decision
        · exact large
      obtain ⟨node, tests, _⟩ := closed.decision g member large
      rcases reached g member with small | ⟨root, isRoot, reach⟩
      · exact absurd large (Nat.not_le_of_lt (Nat.lt_succ_of_le small))
      · obtain rfl := List.mem_singleton.mp isRoot
        exact ⟨reach, node, tests⟩
    · rintro ⟨reach, node, tests⟩
      exact ⟨closed_reaches store alive closed f g reach inside, by simp [tests.1]⟩
  obtain ⟨seen, read, members⟩ := looks_ok store.varOf (alive.toList.filter (!·.isTerminal)) fun g member => by
    obtain ⟨_, node, tests⟩ := (decisions g).mp member
    exact ⟨node.var, var_of_tests store g node tests⟩
  refine ⟨Var.sorted seen, ?_, fun v => ?_⟩
  · simp only [support, done, read, bind, Except.bind, pure, Except.pure]
  · rw [Var.sorted_mem, members]
    constructor
    · rintro ⟨g, member, tested⟩
      obtain ⟨reach, node, tests⟩ := (decisions g).mp member
      rw [var_of_tests store g node tests] at tested
      exact ⟨g, node, reach, tests, Except.ok.inj tested⟩
    · rintro ⟨g, node, reach, tests, rfl⟩
      exact ⟨g, (decisions g).mpr ⟨reach, node, tests⟩, var_of_tests store g node tests⟩

theorem maps_reaches (store : Store) (sound : store.Sound) (image : Var → Var) (f : Ref)
    (live : store.Live f)
    (allocated : ∀ g node, store.Reaches f g → store.Tests g node →
      0 < image node.var ∧ image node.var ≤ store.numVars) : store.Maps image f := by
  refine live_induction store sound (fun f => (∀ g node, store.Reaches f g → store.Tests g node →
    0 < image node.var ∧ image node.var ≤ store.numVars) → store.Maps image f) ?_ ?_ f live allocated
  · exact fun f small _ => .terminal f small
  · intro f node tests low high allocated
    obtain ⟨positive, bound⟩ := allocated f node (.here f) tests
    refine .decision f node tests positive bound (low ?_) (high ?_)
    · exact fun g other reach => allocated g other (.low f g node tests reach)
    · exact fun g other reach => allocated g other (.high f g node tests reach)

end Store

namespace Renaming

theorem image_empty (names : Renaming) (empty : names.isEmpty = true) (v : Var) : names.image v = v := by
  have absent : names.get? v = none := Std.TreeMap.getElem?_of_isEmpty empty
  rw [image, absent, Option.getD_none]

end Renaming

namespace Action

open Store

theorem gives_rename (book : Book) (names : Renaming) (named : book names.id = some names.image)
    (store : Store) (coherent : store.Coherent book) (f : Ref) (live : store.Live f)
    (maps : store.Maps names.image f) :
    Gives book (rename names f) store fun env => store.eval f fun v => env (names.image v) := by
  cases empty : names.isEmpty with
  | true =>
      rw [rename_empty names f empty]
      refine ⟨f, store, rfl, advances_refl book store coherent, live, fun env => ?_⟩
      simp only [names.image_empty empty]
  | false =>
      obtain ⟨r, next, done, advanced, settled⟩ :=
        ends_done (rename names f) store _ _ (advance_rename book names named store coherent f empty)
          fun _ _ refused => refused.2 maps
      have grown := advances_extends book store next advanced
      have sound := advanced.coherent.sound
      refine ⟨r, next, done, advanced, renames_result next sound names.image f r settled, fun env => ?_⟩
      rw [renames_eval next sound names.image f r settled]
      exact eval_extends store next coherent.sound sound grown f live _

end Action

namespace Workspace

theorem construct_reply (ws : Workspace) (m : Nat) (store next : Store) (act : Action Ref) (r : Ref)
    (found : ws.stores[m]? = some store) (done : act store = .ok r next) :
    ws.construct m act = ⟨.ok (.ref r), [], ws.setStore m next⟩ := by
  simp only [construct, on_store_run, found, Request.perform, done]

theorem rename_current (ws : Workspace) (m p : Nat) (f : Ref) (names : Renaming)
    (current : ws.renamings[p]? = some names) : ws.perform (.rename m p f) = ws.construct m (.rename names f) := by
  simp only [perform, rename, Workspace.found, (names_found ws p names).mpr current]

theorem rename_reply (ws : Workspace) (m p : Nat) (store next : Store) (names : Renaming) (f r : Ref)
    (found : ws.stores[m]? = some store) (current : ws.renamings[p]? = some names)
    (done : Action.rename names f store = .ok r next) :
    ws.perform (.rename m p f) = ⟨.ok (.ref r), [], ws.setStore m next⟩ := by
  rw [rename_current ws m p f names current]
  exact construct_reply ws m store next _ r found done

theorem rename_exact (ws : Workspace) (reachable : ws.Reachable) (m p : Nat) (store : Store)
    (names : Renaming) (found : ws.stores[m]? = some store) (current : ws.renamings[p]? = some names)
    (f : Ref) (live : store.Live f) :
    ∃ vars, store.support f = .ok vars ∧
      ((∀ v ∈ vars, 0 < names.image v ∧ names.image v ≤ store.numVars) →
        ∃ r next, (ws.perform (.rename m p f)).outcome = .ok (.ref r) ∧
          (ws.perform (.rename m p f)).workspace.stores[m]? = some next ∧ next.Live r ∧
          ∀ env, next.eval r env = store.eval f fun v => env (names.image v)) := by
  obtain ⟨book, booked, trusted⟩ := reachable_trusted ws reachable
  have coherent := trusted m store found
  have named := booked.current p names current
  obtain ⟨vars, read, tested⟩ := Store.support_reaches store coherent.sound f live
  refine ⟨vars, read, fun allocated => ?_⟩
  have maps : store.Maps names.image f := by
    apply Store.maps_reaches store coherent.sound names.image f live
    intro g node reach tests
    exact allocated node.var ((tested node.var).mpr ⟨g, node, reach, tests, rfl⟩)
  obtain ⟨r, next, done, _, rLive, value⟩ :=
    Action.gives_rename book names named store coherent f live maps
  have reply := rename_reply ws m p store next names f r found current done
  refine ⟨r, next, ?_, ?_, rLive, value⟩
  · rw [reply]
  · rw [reply]
    exact set_store_found ws m store next found

-- The first variable is renamed to the second, and a copy is set aside; with
-- the second renamed to the first as well, the two change places.
theorem swap_exact :
    ∃ (ws : Workspace) (store : Store) (names copy : Renaming) (vars : List Var),
      ws = empty.run [.newStore {}, .newVars 0 2, .construct 0 (.literal 1 true),
        .construct 0 (.literal 2 false), .construct 0 (.combine .and 2 3), .newRenaming, .pair 0 0 1 2,
        .rename 0 0 4, .copyRenaming 0, .pair 0 0 2 1] ∧
      ws.stores[0]? = some store ∧ ws.renamings[0]? = some names ∧ ws.renamings[1]? = some copy ∧
      store.Live 4 ∧ store.support 4 = .ok vars ∧ names.toList = [(1, 2), (2, 1)] ∧ copy.toList = [(1, 2)] ∧
      (∀ v ∈ vars, 0 < names.image v ∧ names.image v ≤ store.numVars) ∧
      ∃ (r : Ref) (next : Store), (ws.perform (.rename 0 0 4)).outcome = .ok (.ref r) ∧ next.Live r ∧
        ∀ env, next.eval r env = store.eval 4 fun v => env (names.image v) := by
  obtain ⟨ws, built⟩ : ∃ ws, ws = empty.run [.newStore {}, .newVars 0 2, .construct 0 (.literal 1 true),
    .construct 0 (.literal 2 false), .construct 0 (.combine .and 2 3), .newRenaming, .pair 0 0 1 2,
    .rename 0 0 4, .copyRenaming 0, .pair 0 0 2 1] := ⟨_, rfl⟩
  have kept : ws.stores[0]?.any (fun store =>
      decide (store.Live 4 ∧ store.support 4 = .ok [1, 2] ∧ store.numVars = 2)) = true := by
    rw [built]
    decide +kernel
  have renamed : ws.renamings[0]?.any (fun names =>
      decide (names.toList = [(1, 2), (2, 1)] ∧ [1, 2].map names.image = [2, 1])) = true := by
    rw [built]
    decide +kernel
  have aside : ws.renamings[1]?.any (fun copy => decide (copy.toList = [(1, 2)])) = true := by
    rw [built]
    decide +kernel
  obtain ⟨store, found, known⟩ := (Option.any_eq_true _ _).mp kept
  obtain ⟨live, read, count⟩ := of_decide_eq_true known
  obtain ⟨names, current, known⟩ := (Option.any_eq_true _ _).mp renamed
  obtain ⟨pairs, swapped⟩ := of_decide_eq_true known
  obtain ⟨copy, other, old⟩ := (Option.any_eq_true _ _).mp aside
  obtain ⟨vars, support, exact⟩ := rename_exact ws ⟨_, built.symm⟩ 0 0 store names found current 4 live
  have listed : vars = [1, 2] := Except.ok.inj (support.symm.trans read)
  have allocated : ∀ v ∈ vars, 0 < names.image v ∧ names.image v ≤ store.numVars := by
    rw [listed, count]
    simp only [List.map_cons, List.map_nil, List.cons.injEq] at swapped
    simp [swapped]
  obtain ⟨r, next, outcome, _, rLive, value⟩ := exact allocated
  exact ⟨ws, store, names, copy, vars, built, found, current, other, live, support, pairs,
    of_decide_eq_true old, allocated, r, next, outcome, rLive, value⟩

end Workspace
end DomainDiagram
