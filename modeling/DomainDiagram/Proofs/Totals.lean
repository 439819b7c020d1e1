import DomainDiagram.Proofs.Asking
import DomainDiagram.Proofs.Dependence
import Mathlib.Data.Set.Card

set_option autoImplicit false

namespace DomainDiagram

def choices (vars : List Var) (fn : (Var → Bool) → Bool) (env : Var → Bool) : Set (Var → Bool) :=
  {other | (∀ w, w ∉ vars → other w = env w) ∧ fn other = true}

theorem choices_none (fn : (Var → Bool) → Bool) (env : Var → Bool) :
    choices [] fn env = if fn env then {env} else ∅ := by
  ext other
  have same : (∀ w, w ∉ ([] : List Var) → other w = env w) ↔ other = env := by simp [funext_iff]
  rw [choices, Set.mem_ofPred_eq, same]
  constructor
  · rintro ⟨rfl, holds⟩
    rw [if_pos holds]
    rfl
  · intro member
    split at member
    · next holds => exact ⟨member, (Set.mem_singleton_iff.mp member).symm ▸ holds⟩
    · exact absurd member (Set.notMem_empty other)

theorem choices_first (v : Var) (rest : List Var) (fn : (Var → Bool) → Bool) (env : Var → Bool) :
    choices (v :: rest) fn env =
      choices rest fn (Function.update env v false) ∪ choices rest fn (Function.update env v true) := by
  ext other
  constructor
  · rintro ⟨agree, holds⟩
    have part : other ∈ choices rest fn (Function.update env v (other v)) := by
      refine ⟨fun w outside => ?_, holds⟩
      by_cases same : w = v
      · rw [same, Function.update_self]
      · rw [Function.update_of_ne same, agree w (List.not_mem_cons_of_ne_of_not_mem same outside)]
    cases value : other v with
    | false => exact .inl (value ▸ part)
    | true => exact .inr (value ▸ part)
  · have inside : ∀ value, other ∈ choices rest fn (Function.update env v value) →
        other ∈ choices (v :: rest) fn env := by
      rintro value ⟨agree, holds⟩
      refine ⟨fun w outside => ?_, holds⟩
      obtain ⟨different, beyond⟩ : w ≠ v ∧ w ∉ rest := by simpa using outside
      rw [agree w beyond, Function.update_of_ne different]
    exact fun member => member.elim (inside false) (inside true)

theorem choices_card (vars : List Var) (once : vars.Nodup) (fn : (Var → Bool) → Bool) (env : Var → Bool) :
    (choices vars fn env).encard = ways vars fn env := by
  induction vars generalizing env with
  | nil =>
      rw [choices_none, ways]
      cases fn env with
      | false => exact Set.encard_empty
      | true => exact Set.encard_singleton env
  | cons v rest ih =>
      obtain ⟨fresh, later⟩ := List.nodup_cons.mp once
      have apart : Disjoint (choices rest fn (Function.update env v false))
          (choices rest fn (Function.update env v true)) := by
        refine Set.disjoint_left.mpr fun other low high => ?_
        have differ := (low.1 v fresh).symm.trans (high.1 v fresh)
        rw [Function.update_self, Function.update_self] at differ
        exact Bool.false_ne_true differ
      rw [choices_first, Set.encard_union_eq apart, ih later, ih later, ways, Nat.cast_add]

namespace Store

-- The count of f put together from those of the terminals: the mean of two
-- counts is taken only where their sum is even.
inductive Averages (store : Store) (full : Nat) : Ref → Nat → Prop where
  | none : Averages store full 0 0
  | all : Averages store full 1 full
  | mean (f : Ref) (node : Node) (low high count : Nat) (tests : store.Tests f node)
      (lower : Averages store full node.low low) (higher : Averages store full node.high high)
      (even : low + high = 2 * count) : Averages store full f count

theorem weight_averages (store : Store) (sound : store.Sound) (env : Var → Bool) (f : Ref)
    (live : store.Live f) : store.Averages (2 ^ store.numVars) f (store.weight env f) := by
  refine live_induction store sound
    (fun f => store.Averages (2 ^ store.numVars) f (store.weight env f)) ?_ ?_ f live
  · intro f small
    rcases Ref.terminal_cases f small with rfl | rfl
    · rw [weight_zero]
      exact .none
    · rw [weight_one, Nat.one_shiftLeft]
      exact .all
  · intro f node tests low high
    exact .mean f node _ _ _ tests low high (weight_even store sound env f node tests)

theorem weight_later (store later : Store) (sound : store.Sound) (f : Ref) (live : store.Live f)
    (same : ∀ env, later.eval f env = store.eval f env) (more : store.numVars ≤ later.numVars) (env : Var → Bool) :
    later.weight env f = 2 ^ (later.numVars - store.numVars) * store.weight env f := by
  let extra := List.range' (1 + store.numVars) (later.numVars - store.numVars)
  have all : later.allVars = store.allVars ++ extra := by
    rw [allVars, allVars, List.range'_append_1, Nat.add_sub_of_le more]
  have free : ∀ v ∈ extra, ∀ env value, store.eval f (Function.update env v value) = store.eval f env := by
    intro v member env value
    refine eval_allocated store sound f live _ env fun w _ bound => ?_
    have beyond := (List.mem_range'_1.mp member).1
    have other : w ≠ v := by lia
    exact Function.update_of_ne other value env
  have read : later.eval f = store.eval f := funext same
  rw [weight, read, all, ways_perm _ (extra ++ store.allVars) List.perm_append_comm, ways_free extra _ _ free,
    List.length_range', weight]

theorem members_steady (old new : Store) (newSound : new.Sound) (steady : old.Steady new) (set : Ref)
    (vars : List Var) (members : old.Members set vars) (still : new.Live set) : new.Members set vars := by
  induction members with
  | nil set small => exact .nil set small
  | cons set node rest tests _ ih =>
      have kept := steady.kept set node tests still
      exact .cons set node rest kept (ih (high_live new newSound set node kept))

structure Counted (store : Store) (f : Ref) (count : Nat) : Prop where
  done : store.models f = .ok count
  averages : store.Averages (2 ^ store.numVars) f count
  assignments : ∀ env, (choices store.allVars (store.eval f) env).encard = count

structure CountedOver (store : Store) (f set : Ref) (members : List Var) (count : Nat) : Prop where
  done : store.modelsOver f set = .ok count
  fits : members.length ≤ store.numVars
  assignments : ∀ env, (choices members (store.eval f) env).encard = count

theorem weight_counted (store : Store) (sound : store.Sound) (f : Ref) (live : store.Live f) (env : Var → Bool) :
    store.Counted f (store.weight env f) := by
  refine ⟨models_ok store sound f live env, weight_averages store sound env f live, fun other => ?_⟩
  have same : store.weight env f = store.weight other f :=
    Except.ok.inj ((models_ok store sound f live env).symm.trans (models_ok store sound f live other))
  have once : store.allVars.Nodup := List.nodup_range' 1
  rw [choices_card _ once, same, weight]

theorem members_counted (store : Store) (sound : store.Sound) (f set : Ref) (live : store.Live f)
    (setLive : store.Live set) (members : List Var) (listed : store.Members set members)
    (reads : ∀ v, store.Depends f v → v ∈ members) (env : Var → Bool) :
    store.CountedOver f set members (ways members (store.eval f) env) := by
  obtain ⟨ascending, inside⟩ := members_ascending store sound set members listed
  have once : members.Nodup := ascending.imp fun less => Nat.ne_of_lt less
  have free : ∀ v, v ∉ members → ∀ env value,
      store.eval f (Function.update env v value) = store.eval f env := fun v outside =>
    (depends_not store f v).mp fun depends => outside (reads v depends)
  have counted := fun env => models_over_ok store sound f set live setLive members listed free env
  constructor
  case done => exact counted env
  case fits =>
    have fewer : members.length ≤ store.allVars.length := (once.subperm inside).length_le
    rwa [allVars, List.length_range'] at fewer
  case assignments =>
    intro other
    rw [choices_card members once, Except.ok.inj ((counted env).symm.trans (counted other))]

end Store

namespace Workspace

theorem new_vars_grow (ws : Workspace) (m n : Nat) (first : Var) (store : Store)
    (found : ws.stores[m]? = some store) (done : (ws.perform (.newVars m n)).outcome = .ok (.var first)) :
    (ws.perform (.newVars m n)).workspace.stores[m]? = some (store.grow n) := by
  obtain ⟨same, next, a, sameFound, ran, reply⟩ := on_store_done ws m _ _ _ done
  obtain rfl := Option.some.inj (sameFound.symm.trans found)
  have grown : next = same.grow n := by
    simp only [Request.newVars, Request.afterCheck] at ran
    split at ran
    · exact (EStateM.Result.ok.inj ran).2.symm
    · cases ran
  change (ws.onStore m _ _).workspace.stores[m]? = _
  rw [reply, ← grown]
  exact set_store_found ws m same next found

theorem new_vars_stays (ws : Workspace) (m n : Nat) (f : Ref) (store : Store)
    (found : ws.stores[m]? = some store) (live : store.Live f)
    (after : (ws.perform (.newVars m n)).workspace.stores[m]? = some (store.grow n)) :
    ws.StaysLive m f [.newVars m n] :=
  ⟨⟨store, found, live⟩, store.grow n, after,
    Store.extends_live store (store.grow n) (Store.grow_follows store n).grown f live⟩

structure Totals (ws : Workspace) (m : Nat) (store : Store) (f : Ref) (count : Nat) : Prop where
  told : (ws.look (.ask m (.models f))).1 = .fact (.ok (.amount count))
  counted : store.Counted f count
  later : ∀ commands, ws.StaysLive m f commands → ∀ later, (ws.run commands).stores[m]? = some later →
    store.numVars ≤ later.numVars ∧ later.Counted f (2 ^ (later.numVars - store.numVars) * count)
  more : ∀ n first, (ws.perform (.newVars m n)).outcome = .ok (.var first) →
    ((ws.perform (.newVars m n)).workspace.look (.ask m (.models f))).1 = .fact (.ok (.amount (2 ^ n * count)))

structure TotalsOver (ws : Workspace) (m : Nat) (store : Store) (f set : Ref) (members : List Var) (count : Nat) :
    Prop where
  told : (ws.look (.ask m (.modelsOver f set))).1 = .fact (.ok (.amount count))
  counted : store.CountedOver f set members count
  later : ∀ commands, ws.StaysLive m f commands → ws.StaysLive m set commands →
    ∀ later, (ws.run commands).stores[m]? = some later → later.CountedOver f set members count
  more : ∀ n first, (ws.perform (.newVars m n)).outcome = .ok (.var first) →
    ((ws.perform (.newVars m n)).workspace.look (.ask m (.modelsOver f set))).1 = .fact (.ok (.amount count))

section Totals

variable (ws : Workspace) (reachable : ws.Reachable) (m : Nat) (store : Store) (found : ws.stores[m]? = some store)
variable (f : Ref) (live : store.Live f)
include reachable found live

theorem totals_weight (env : Var → Bool) : ws.Totals m store f (store.weight env f) := by
  have sound := reachable_sound ws reachable m store found
  have counted := Store.weight_counted store sound f live env
  have after : ∀ commands, ws.StaysLive m f commands → ∀ later, (ws.run commands).stores[m]? = some later →
      store.numVars ≤ later.numVars ∧
        later.Counted f (2 ^ (later.numVars - store.numVars) * store.weight env f) := by
    intro commands stays later laterFound
    have kept := run_eval ws reachable m f commands stays store later found laterFound
    have more := (run_keeps ws reachable m f (fun next => store.numVars ≤ next.numVars)
      (fun old new _ _ steady _ _ less => Nat.le_trans less steady.vars) commands stays store later found
      laterFound (Nat.le_refl _)).2
    have laterSound := reachable_sound _ (reachable_run ws reachable commands) m later laterFound
    refine ⟨more, ?_⟩
    rw [← Store.weight_later store later sound f live (fun env => (kept env).2) more env]
    exact Store.weight_counted later laterSound f (kept env).1 env
  constructor
  case told => rw [ask_told ws m _ store found, Store.answer, counted.done, Store.told]
  case counted => exact counted
  case later => exact after
  case more =>
    intro n first done
    have grown := new_vars_grow ws m n first store found done
    obtain ⟨_, total⟩ := after [.newVars m n] (new_vars_stays ws m n f store found live grown) _ grown
    rw [ask_told _ m _ _ grown, Store.answer, total.done, Store.told, Store.grow, Nat.add_sub_cancel_left]

theorem totals_over (set : Ref) (setLive : store.Live set) (members : List Var)
    (listed : store.Members set members) (reads : ∀ v, store.Depends f v → v ∈ members) (env : Var → Bool) :
    ws.TotalsOver m store f set members (ways members (store.eval f) env) := by
  have sound := reachable_sound ws reachable m store found
  have counted := Store.members_counted store sound f set live setLive members listed reads env
  have after : ∀ commands, ws.StaysLive m f commands → ws.StaysLive m set commands →
      ∀ later, (ws.run commands).stores[m]? = some later →
        later.CountedOver f set members (ways members (store.eval f) env) := by
    intro commands stays setStays later laterFound
    have kept := run_eval ws reachable m f commands stays store later found laterFound
    obtain ⟨setAfter, still⟩ := run_keeps ws reachable m set (fun next => next.Members set members)
      (fun old new _ newSound steady _ setNew known =>
        Store.members_steady old new newSound steady set members known setNew)
      commands setStays store later found laterFound listed
    have laterSound := reachable_sound _ (reachable_run ws reachable commands) m later laterFound
    have same : later.eval f = store.eval f := funext fun env => (kept env).2
    rw [← same]
    refine Store.members_counted later laterSound f set (kept env).1 setAfter members still (fun v depends => ?_) env
    exact reads v ((Store.depends_congr store later f (fun env => (kept env).2) v).mp depends)
  constructor
  case told => rw [ask_told ws m _ store found, Store.answer, counted.done, Store.told]
  case counted => exact counted
  case later => exact after
  case more =>
    intro n first done
    have grown := new_vars_grow ws m n first store found done
    have total := after [.newVars m n] (new_vars_stays ws m n f store found live grown)
      (new_vars_stays ws m n set store found setLive grown) _ grown
    rw [ask_told _ m _ _ grown, Store.answer, total.done, Store.told]

end Totals

theorem models_exact (ws : Workspace) (reachable : ws.Reachable) (m : Nat) (store : Store)
    (found : ws.stores[m]? = some store) (f : Ref) (live : store.Live f) :
    ∃ count, ws.Totals m store f count ∧
      ∀ set support members, store.Live set → store.support f = .ok support → store.members set = .ok members →
        (∀ v ∈ support, v ∈ members) → ∃ part, ws.TotalsOver m store f set members part := by
  have sound := reachable_sound ws reachable m store found
  refine ⟨_, totals_weight ws reachable m store found f live fun _ => false, ?_⟩
  intro set support members setLive read listed inside
  obtain ⟨vars, exist⟩ := Store.members_exist store sound set setLive
  obtain rfl : vars = members :=
    Except.ok.inj ((Store.members_ok store sound set setLive vars exist).symm.trans listed)
  obtain ⟨tested, same, _, depended⟩ := Store.support_depends store sound f live
  obtain rfl : tested = support := Except.ok.inj (same.symm.trans read)
  exact ⟨_, totals_over ws reachable m store found f live set setLive vars exist
    (fun v depends => inside v ((depended v).mpr depends)) fun _ => false⟩

-- The disjunction of the first and the last of three variables, counted among
-- all three and over these two, before and after two more are allocated and
-- all that is not held is collected.
theorem disjunction_totals :
    ∃ (ws : Workspace) (commands : List Command) (store later : Store),
      ws = empty.run [.newStore {}, .newVars 0 3, .construct 0 (.literal 1 true), .construct 0 (.literal 3 true),
        .construct 0 (.combine .or 2 3), .construct 0 (.cube [1, 3]), .hold 0 4, .hold 0 5] ∧
      commands = [.newVars 0 2, .collect 0] ∧ ws.stores[0]? = some store ∧ store.Live 4 ∧ store.Live 5 ∧
      store.support 4 = .ok [1, 3] ∧ store.members 5 = .ok [1, 3] ∧ (∀ v ∈ [1, 3], v ∈ [1, 3]) ∧
      ws.StaysLive 0 4 commands ∧ ws.StaysLive 0 5 commands ∧ (ws.run commands).stores[0]? = some later ∧
      (ws.perform (.newVars 0 2)).outcome = .ok (.var 4) ∧
      ws.Totals 0 store 4 6 ∧ ws.TotalsOver 0 store 4 5 [1, 3] 3 ∧
      later.numVars = 5 ∧ later.Counted 4 24 ∧ later.CountedOver 4 5 [1, 3] 3 := by
  obtain ⟨ws, built⟩ : ∃ ws, ws = empty.run [.newStore {}, .newVars 0 3, .construct 0 (.literal 1 true),
    .construct 0 (.literal 3 true), .construct 0 (.combine .or 2 3), .construct 0 (.cube [1, 3]), .hold 0 4,
    .hold 0 5] := ⟨_, rfl⟩
  have now : ws.stores[0]?.any (fun store => decide (store.numVars = 3 ∧ store.Live 4 ∧ store.Live 5 ∧
      store.support 4 = .ok [1, 3] ∧ store.members 5 = .ok [1, 3] ∧ store.models 4 = .ok 6 ∧
      store.modelsOver 4 5 = .ok 3)) = true := by
    rw [built]
    decide +kernel
  have grew : (ws.run [.newVars 0 2, .collect 0]).stores[0]?.any (fun later => decide (later.numVars = 5)) = true := by
    rw [built]
    decide +kernel
  have stays : ws.StaysLive 0 4 [.newVars 0 2, .collect 0] := by
    rw [built]
    decide +kernel
  have setStays : ws.StaysLive 0 5 [.newVars 0 2, .collect 0] := by
    rw [built]
    decide +kernel
  have grown : (ws.perform (.newVars 0 2)).outcome = .ok (.var 4) := by
    rw [built]
    decide +kernel
  obtain ⟨store, found, known⟩ := (Option.any_eq_true _ _).mp now
  obtain ⟨few, live, setLive, read, listed, six, three⟩ := of_decide_eq_true known
  obtain ⟨later, after, known⟩ := (Option.any_eq_true _ _).mp grew
  have five := of_decide_eq_true known
  obtain ⟨count, totals, parts⟩ := models_exact ws ⟨_, built.symm⟩ 0 store found 4 live
  obtain rfl : count = 6 := Except.ok.inj (totals.counted.done.symm.trans six)
  obtain ⟨part, totalsOver⟩ := parts 5 [1, 3] [1, 3] setLive read listed fun _ member => member
  obtain rfl : part = 3 := Except.ok.inj (totalsOver.counted.done.symm.trans three)
  have doubled := (totals.later _ stays later after).2
  rw [few, five] at doubled
  exact ⟨ws, _, store, later, built, rfl, found, live, setLive, read, listed, fun _ member => member, stays,
    setStays, after, grown, totals, totalsOver, five, doubled, totalsOver.later _ stays setStays later after⟩

end Workspace
end DomainDiagram
