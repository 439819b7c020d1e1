import DomainDiagram.Proofs.Exactness

set_option autoImplicit false

namespace DomainDiagram

namespace Quantifier

def Over (q : Quantifier) (vars : List Var) (fn : (Var → Bool) → Bool) (env : Var → Bool) : Prop :=
  match q with
  | .any => ∃ other : Var → Bool, (∀ v, v ∉ vars → other v = env v) ∧ fn other = true
  | .all => ∀ other : Var → Bool, (∀ v, v ∉ vars → other v = env v) → fn other = true

theorem agree_cons (v : Var) (rest : List Var) (env other : Var → Bool) :
    (∀ w, w ∉ v :: rest → other w = env w) ↔
      ∃ value, ∀ w, w ∉ rest → other w = Function.update env v value w := by
  constructor
  · intro agree
    refine ⟨other v, fun w fresh => ?_⟩
    by_cases same : w = v
    · subst same
      exact (Function.update_self w (other w) env).symm
    · rw [Function.update_of_ne same (other v) env]
      exact agree w (by simp [same, fresh])
  · rintro ⟨value, agree⟩ w fresh
    have parts : w ≠ v ∧ w ∉ rest := by simpa using fresh
    rw [agree w parts.2, Function.update_of_ne parts.1]

theorem across_any (vars : List Var) (fn : (Var → Bool) → Bool) (env : Var → Bool) :
    Quantifier.any.across vars fn env = true ↔
      ∃ other : Var → Bool, (∀ v, v ∉ vars → other v = env v) ∧ fn other = true := by
  induction vars generalizing env with
  | nil =>
      constructor
      · exact fun holds => ⟨env, fun _ _ => rfl, holds⟩
      · rintro ⟨other, agree, holds⟩
        rwa [funext fun v => agree v (List.not_mem_nil)] at holds
  | cons v rest ih =>
      have step : Quantifier.any.across (v :: rest) fn env =
        (Quantifier.any.across rest fn (Function.update env v false) ||
          Quantifier.any.across rest fn (Function.update env v true)) := rfl
      rw [step, Bool.or_eq_true, ih, ih]
      constructor
      · rintro (⟨other, agree, holds⟩ | ⟨other, agree, holds⟩)
        · exact ⟨other, (agree_cons v rest env other).mpr ⟨false, agree⟩, holds⟩
        · exact ⟨other, (agree_cons v rest env other).mpr ⟨true, agree⟩, holds⟩
      · rintro ⟨other, agree, holds⟩
        obtain ⟨value, agree⟩ := (agree_cons v rest env other).mp agree
        cases value with
        | false => exact .inl ⟨other, agree, holds⟩
        | true => exact .inr ⟨other, agree, holds⟩

theorem across_all (vars : List Var) (fn : (Var → Bool) → Bool) (env : Var → Bool) :
    Quantifier.all.across vars fn env = !Quantifier.any.across vars (fun inner => !fn inner) env := by
  induction vars generalizing env with
  | nil => exact (Bool.not_not _).symm
  | cons v rest ih =>
      simp only [across, connective, Connective.eval, ih, Bool.not_or]

theorem across_over (q : Quantifier) (vars : List Var) (fn : (Var → Bool) → Bool) (env : Var → Bool) :
    q.across vars fn env = true ↔ q.Over vars fn env := by
  cases q with
  | any => exact across_any vars fn env
  | all =>
      rw [across_all, Bool.not_eq_true', ← Bool.not_eq_true, across_any]
      simp only [Over, Bool.not_eq_true', not_exists, not_and, Bool.not_eq_false]

theorem across_bound (q : Quantifier) (vars : List Var) (fn : (Var → Bool) → Bool) (v : Var)
    (member : v ∈ vars) (env : Var → Bool) (value : Bool) :
    q.across vars fn (Function.update env v value) = q.across vars fn env := by
  have outside : ∀ w, w ∉ vars → Function.update env v value w = env w := by
    intro w fresh
    refine Function.update_of_ne ?_ value env
    rintro rfl
    exact fresh member
  have same : ∀ other : Var → Bool, (∀ w, w ∉ vars → other w = Function.update env v value w) ↔
      ∀ w, w ∉ vars → other w = env w := fun other =>
    forall₂_congr fun w fresh => by rw [outside w fresh]
  rw [Bool.eq_iff_iff, across_over, across_over]
  cases q <;> simp only [Over, same]

end Quantifier

namespace Store

theorem members_extends (old new : Store) (grown : Extends old new) (set : Ref) (vars : List Var)
    (members : old.Members set vars) : new.Members set vars := by
  induction members with
  | nil set small => exact .nil set small
  | cons set node rest tests _ ih => exact .cons set node rest (grown.kept set node tests) ih

end Store

namespace Action

open Store

theorem gives_quantify (book : Book) (q : Quantifier) (store : Store) (coherent : store.Coherent book)
    (f set : Ref) (live : store.Live f) (setLive : store.Live set) (vars : List Var)
    (members : store.Members set vars) :
    Gives book (quantify q f set) store fun env => q.across vars (store.eval f) env := by
  obtain ⟨r, next, done, advanced, settled⟩ :=
    ends_done (quantify q f set) store _ _ (advance_quantify book q store coherent f set)
      fun _ _ refused => refused.2 (by simp [live, setLive])
  have grown := advances_extends book store next advanced
  have sound := advanced.coherent.sound
  have below := live_below next sound f (extends_live store next grown f live)
  refine ⟨r, next, done, advanced, ?_, fun env => ?_⟩
  · exact below_live next 0 r (quantifies_below next sound q 0 f set r below settled)
  · rw [quantifies_eval next sound q f set r settled vars (members_extends store next grown set vars members)]
    exact q.across_congr vars _ _ env fun inner _ =>
      eval_extends store next coherent.sound sound grown f live inner

end Action

namespace Workspace

theorem quantify_exact (ws : Workspace) (reachable : ws.Reachable) (m : Nat) (store : Store)
    (found : ws.stores[m]? = some store) (f set : Ref) (live : store.Live f) (setLive : store.Live set) :
    ∃ vars, store.members set = .ok vars ∧ ∀ q : Quantifier,
      ∃ r next, (ws.perform (.construct m (.quantify q f set))).outcome = .ok (.ref r) ∧
        (ws.perform (.construct m (.quantify q f set))).workspace.stores[m]? = some next ∧ next.Live r ∧
        (∀ env, next.eval r env = true ↔ q.Over vars (store.eval f) env) ∧
        ∀ v ∈ vars, ∀ env value, next.eval r (Function.update env v value) = next.eval r env := by
  obtain ⟨book, _, trusted⟩ := reachable_trusted ws reachable
  have coherent := trusted m store found
  obtain ⟨vars, members⟩ := Store.members_exist store coherent.sound set setLive
  refine ⟨vars, Store.members_ok store coherent.sound set setLive vars members, fun q => ?_⟩
  obtain ⟨r, next, outcome, after, rLive, value⟩ := gives_yields ws book m store found (.quantify q f set) _
    (Action.gives_quantify book q store coherent f set live setLive vars members)
  refine ⟨r, next, outcome, after, rLive, fun env => ?_, fun v member env choice => ?_⟩
  · rw [value]
    exact q.across_over vars (store.eval f) env
  · rw [value, value]
    exact q.across_bound vars (store.eval f) v member env choice

-- The set is no cube: its high chain lists one variable, and it is the
-- function quantified as well.
theorem disjunction_quantified :
    ∃ (ws : Workspace) (store : Store) (vars : List Var),
      ws = empty.run [.newStore {}, .newVars 0 2, .construct 0 (.literal 1 true),
        .construct 0 (.literal 2 true), .construct 0 (.combine .or 2 3)] ∧
      ws.stores[0]? = some store ∧ store.Live 4 ∧ store.members 4 = .ok vars ∧ vars = [1] ∧
      ∃ (r : Ref) (next : Store),
        (ws.perform (.construct 0 (.quantify .all 4 4))).outcome = .ok (.ref r) ∧ next.Live r ∧
        (∀ env, next.eval r env = true ↔ Quantifier.all.Over vars (store.eval 4) env) ∧
        ∀ v ∈ vars, ∀ env value, next.eval r (Function.update env v value) = next.eval r env := by
  obtain ⟨store, found⟩ : ∃ store, (empty.run [.newStore {}, .newVars 0 2, .construct 0 (.literal 1 true),
      .construct 0 (.literal 2 true), .construct 0 (.combine .or 2 3)]).stores[0]? = some store := ⟨_, rfl⟩
  have live : store.Live 4 := by
    obtain rfl := Option.some.inj found
    exact .inr ⟨_, by decide, rfl⟩
  have one : store.members 4 = .ok [1] := by
    obtain rfl := Option.some.inj found
    decide +kernel
  obtain ⟨vars, members, exact⟩ :=
    quantify_exact (empty.run [.newStore {}, .newVars 0 2, .construct 0 (.literal 1 true),
      .construct 0 (.literal 2 true), .construct 0 (.combine .or 2 3)]) ⟨_, rfl⟩ 0 store found 4 4 live live
  obtain ⟨r, next, outcome, _, rLive, value, bound⟩ := exact .all
  have listed : vars = [1] := Except.ok.inj (members.symm.trans one)
  exact ⟨_, store, vars, rfl, found, live, members, listed, r, next, outcome, rLive, value, bound⟩

end Workspace
end DomainDiagram
