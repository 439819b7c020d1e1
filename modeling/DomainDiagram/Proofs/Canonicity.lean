import DomainDiagram.Proofs.Histories

set_option autoImplicit false

namespace DomainDiagram

namespace Store

instance (store : Store) (f : Ref) : Decidable (store.Live f) :=
  decidable_of_iff (f ≤ 1 ∨ store.isLive f = true) (by
    rcases Ref.terminal_or f with small | large
    · simp [Live, small]
    · rw [is_live_tests store f large]
      rfl)

theorem eval_allocated (store : Store) (sound : store.Sound) (f : Ref) (live : store.Live f)
    (env other : Var → Bool) (agree : ∀ v, 0 < v → v ≤ store.numVars → env v = other v) :
    store.eval f env = store.eval f other := by
  refine live_induction store sound (fun g => store.eval g env = store.eval g other) ?_ ?_ f live
  · intro g small
    simp [small]
  · intro g node tests low high
    obtain ⟨positive, bound⟩ := sound.allocated g node tests
    rw [eval_tests store sound env g node tests, eval_tests store sound other g node tests,
      agree node.var positive bound, low, high]

structure Canonical (store : Store) (f : Ref) : Prop where
  reads : ∀ env other : Var → Bool, (∀ v, 0 < v → v ≤ store.numVars → env v = other v) →
    store.eval f env = store.eval f other
  equal : ∀ g, store.Live g → ((∀ env, store.eval f env = store.eval g env) ↔ f = g)
  tautology : (∀ env, store.eval f env = true) ↔ f = 1
  contradiction : (∀ env, store.eval f env = false) ↔ f = 0

theorem live_canonical (store : Store) (sound : store.Sound) (f : Ref) (live : store.Live f) :
    store.Canonical f := by
  have equal : ∀ g, store.Live g → ((∀ env, store.eval f env = store.eval g env) ↔ f = g) :=
    fun g other => eval_injective store sound f g live other
  refine ⟨eval_allocated store sound f live, equal, ?_, ?_⟩
  · rw [← equal 1 (.inl (Nat.le_refl 1))]
    simp
  · rw [← equal 0 (.inl (Nat.zero_le 1))]
    simp

end Store

namespace Workspace

def HasLive (ws : Workspace) (m : Nat) (f : Ref) : Prop :=
  ∃ store, ws.stores[m]? = some store ∧ store.Live f

-- Before the commands, between any two of them and after them.
def StaysLive (ws : Workspace) (m : Nat) (f : Ref) : List Command → Prop
  | [] => ws.HasLive m f
  | command :: rest => ws.HasLive m f ∧ (ws.perform command).workspace.StaysLive m f rest

instance (ws : Workspace) (m : Nat) (f : Ref) : Decidable (ws.HasLive m f) :=
  decidable_of_iff ((ws.stores[m]?).any (fun store => decide (store.Live f)) = true) (by
    simp only [HasLive, Option.any_eq_true, decide_eq_true_eq])

instance decidableStaysLive (ws : Workspace) (m : Nat) (f : Ref) :
    (commands : List Command) → Decidable (ws.StaysLive m f commands)
  | [] => inferInstanceAs (Decidable (ws.HasLive m f))
  | command :: rest =>
      have := decidableStaysLive (ws.perform command).workspace m f rest
      inferInstanceAs (Decidable (ws.HasLive m f ∧ (ws.perform command).workspace.StaysLive m f rest))

theorem stays_first (ws : Workspace) (m : Nat) (f : Ref) (commands : List Command)
    (stays : ws.StaysLive m f commands) : ws.HasLive m f := by
  cases commands with
  | nil => exact stays
  | cons command rest => exact stays.1

theorem has_live (ws : Workspace) (m : Nat) (f : Ref) (has : ws.HasLive m f) (store : Store)
    (found : ws.stores[m]? = some store) : store.Live f := by
  obtain ⟨other, otherFound, live⟩ := has
  rw [found] at otherFound
  obtain rfl := Option.some.inj otherFound
  exact live

theorem reachable_perform (ws : Workspace) (reachable : ws.Reachable) (command : Command) :
    (ws.perform command).workspace.Reachable := reachable_run ws reachable [command]

theorem reachable_sound (ws : Workspace) (reachable : ws.Reachable) (m : Nat) (store : Store)
    (found : ws.stores[m]? = some store) : store.Sound := by
  obtain ⟨book, _, trusted⟩ := reachable_trusted ws reachable
  exact (trusted m store found).sound

theorem reachable_steady (ws : Workspace) (reachable : ws.Reachable) (command : Command) :
    Steady ws (ws.perform command).workspace := by
  obtain ⟨book, booked, trusted⟩ := reachable_trusted ws reachable
  exact (perform_keeps book ws booked trusted command).1

theorem run_keeps (ws : Workspace) (reachable : ws.Reachable) (m : Nat) (f : Ref) (holds : Store → Prop)
    (step : ∀ old new : Store, old.Sound → new.Sound → old.Steady new → old.Live f → new.Live f →
      holds old → holds new)
    (commands : List Command) (stays : ws.StaysLive m f commands) (store later : Store)
    (found : ws.stores[m]? = some store) (after : (ws.run commands).stores[m]? = some later)
    (start : holds store) : later.Live f ∧ holds later := by
  induction commands generalizing ws store with
  | nil =>
      have same : store = later := Option.some.inj (found.symm.trans after)
      subst same
      exact ⟨has_live ws m f stays store found, start⟩
  | cons command rest ih =>
      obtain ⟨has, still⟩ := stays
      obtain ⟨middle, middleFound, steady⟩ := reachable_steady ws reachable command m store found
      have next := reachable_perform ws reachable command
      have kept := has_live _ m f (stays_first _ m f rest still) middle middleFound
      refine ih _ next still middle middleFound after ?_
      exact step store middle (reachable_sound ws reachable m store found)
        (reachable_sound _ next m middle middleFound) steady (has_live ws m f has store found) kept start

theorem run_eval (ws : Workspace) (reachable : ws.Reachable) (m : Nat) (f : Ref) (commands : List Command)
    (stays : ws.StaysLive m f commands) (store later : Store) (found : ws.stores[m]? = some store)
    (after : (ws.run commands).stores[m]? = some later) (env : Var → Bool) :
    later.Live f ∧ later.eval f env = store.eval f env := by
  refine run_keeps ws reachable m f (fun next => next.eval f env = store.eval f env) ?_ commands stays store
    later found after rfl
  intro old new oldSound newSound steady before still same
  exact (Store.eval_steady old new oldSound newSound steady f before still env).trans same

theorem reachable_canonical (ws : Workspace) (reachable : ws.Reachable) (m : Nat) (store : Store)
    (found : ws.stores[m]? = some store) (f : Ref) (live : store.Live f) :
    store.Canonical f ∧
      ∀ commands, ws.StaysLive m f commands → ∀ later, (ws.run commands).stores[m]? = some later →
        ∀ g, later.Live g → ((∀ env, later.eval g env = store.eval f env) ↔ g = f) := by
  refine ⟨Store.live_canonical store (reachable_sound ws reachable m store found) f live, ?_⟩
  intro commands stays later after g other
  have kept := run_eval ws reachable m f commands stays store later found after
  have sound := reachable_sound _ (reachable_run ws reachable commands) m later after
  rw [← Store.eval_injective later sound g f other (kept fun _ => false).1]
  simp only [(kept _).2]

-- The conjunction of two literals is held while one of them is collected and
-- made again.
theorem conjunction_canonical :
    ∃ (ws : Workspace) (commands : List Command) (store later : Store),
      ws = empty.run [.newStore {}, .newVars 0 2, .construct 0 (.literal 1 true),
        .construct 0 (.literal 2 true), .construct 0 (.combine .and 2 3)] ∧
      commands = [.hold 0 4, .collect 0, .construct 0 (.literal 1 true)] ∧
      ws.stores[0]? = some store ∧ store.Live 4 ∧ ws.StaysLive 0 4 commands ∧
      (ws.run commands).stores[0]? = some later ∧ store.Canonical 4 ∧
      ∀ g, later.Live g → ((∀ env, later.eval g env = store.eval 4 env) ↔ g = 4) := by
  have stays : (empty.run [.newStore {}, .newVars 0 2, .construct 0 (.literal 1 true),
      .construct 0 (.literal 2 true), .construct 0 (.combine .and 2 3)]).StaysLive 0 4
        [.hold 0 4, .collect 0, .construct 0 (.literal 1 true)] := by decide +kernel
  obtain ⟨store, found, live⟩ := stays_first _ 0 4 _ stays
  obtain ⟨later, after⟩ : ∃ later, ((empty.run [.newStore {}, .newVars 0 2, .construct 0 (.literal 1 true),
      .construct 0 (.literal 2 true), .construct 0 (.combine .and 2 3)]).run
        [.hold 0 4, .collect 0, .construct 0 (.literal 1 true)]).stores[0]? = some later :=
    Option.isSome_iff_exists.mp (by decide +kernel)
  obtain ⟨canonical, again⟩ := reachable_canonical _ ⟨_, rfl⟩ 0 store found 4 live
  exact ⟨_, _, store, later, rfl, rfl, found, live, stays, after, canonical, again _ stays later after⟩

end Workspace
end DomainDiagram
