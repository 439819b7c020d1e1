import DomainDiagram.Proofs.Regular

set_option autoImplicit false

namespace DomainDiagram

open Store

namespace Action

theorem replays_combined (book : Book) (op : Connective) (store : Store) (coherent : store.Coherent book)
    (f g r : Ref) (settled : store.Combines op f g r) : Replays book (combine op f g) store r := by
  cases settled with
  | shortcut _ _ _ known =>
      unfold Replays
      rw [combine_run, steps, combine_from_shortcut op store.numVars f g r known]
      exact replays_pure book store coherent r
  | split _ _ _ v f0 f1 g0 g1 low high unknown heads left right lowHalf highHalf made =>
      have live : ∀ h ∈ [f, g], store.Live h := by
        simp [splits_live store v f f0 f1 left, splits_live store v g g0 g1 right]
      exact replays_combine book op store coherent f g r live
        (.split f g r v f0 f1 g0 g1 low high unknown heads left right lowHalf highHalf made)

theorem choose_by_route (f g h : Ref) (store : Store) : choose f g h store =
    (match route f g h with
      | .known r => pure r
      | .negation => negate f
      | .disjunction => combine .or f h
      | .conjunction => combine .and f g
      | .halves => chooseFrom (store.numVars + 1) f g h : Action Ref) store := by
  rw [choose_run, steps]
  cases way : route f g h <;> simp only [choose_from_route, way]

theorem replays_chosen (book : Book) (store : Store) (coherent : store.Coherent book) (f g h r : Ref)
    (settled : store.Chooses f g h r) : Replays book (choose f g h) store r := by
  cases settled with
  | known _ _ _ _ way =>
      unfold Replays
      rw [choose_by_route, way]
      exact replays_pure book store coherent r
  | negation _ _ _ _ way settled =>
      unfold Replays
      rw [choose_by_route, way]
      exact replays_negate book store coherent f r settled
  | disjunction _ _ _ _ way settled =>
      unfold Replays
      rw [choose_by_route, way]
      exact replays_combined book .or store coherent f h r settled
  | conjunction _ _ _ _ way settled =>
      unfold Replays
      rw [choose_by_route, way]
      exact replays_combined book .and store coherent f g r settled
  | split _ _ _ _ v f0 f1 g0 g1 h0 h1 low high way heads first second third lowHalf highHalf made =>
      have live : ∀ a ∈ [f, g, h], store.Live a := by
        simp [splits_live store v f f0 f1 first, splits_live store v g g0 g1 second,
          splits_live store v h h0 h1 third]
      exact replays_choose book store coherent f g h r live
        (.split f g h r v f0 f1 g0 g1 h0 h1 low high way heads first second third lowHalf highHalf made)

theorem replays_quantified (book : Book) (q : Quantifier) (store : Store) (coherent : store.Coherent book)
    (f set r : Ref) (settled : store.Quantifies q f set r) : Replays book (quantify q f set) store r := by
  unfold Replays
  rw [quantify_run]
  exact replays_quantify_from book q store.steps store coherent f set r (within_steps store coherent.sound [f]) settled

theorem replays_renamed (book : Book) (names : Renaming) (named : book names.id = some names.image) (store : Store)
    (coherent : store.Coherent book) (f r : Ref) (filled : names.isEmpty = false)
    (settled : store.Renames names.image f r) : Replays book (rename names f) store r := by
  unfold Replays
  rw [rename_run names f store filled]
  exact replays_rename_from book names named store.steps store coherent f r (within_steps store coherent.sound [f])
    settled

-- Where the first action has come to a result, the second comes to the same
-- one ever after, and all that it needs for this is there already.
structure Repeats {α : Type} (book : Book) (act again : Action α) : Prop where
  regular : Regular book act
  replays : ∀ (store next : Store) (a : α), store.Coherent book → act store = .ok a next →
    ∀ later, Extends next later → later.Coherent book → Replays book again later a

theorem repeats_pure {α : Type} (book : Book) (a : α) : Repeats book (pure a) (pure a) := by
  refine ⟨regular_pure book a, fun store next b _ done later _ coherent => ?_⟩
  cases done
  exact replays_pure book later coherent a

theorem done_parts {ε α β : Type} (act : EStateM ε Store α) (next : α → EStateM ε Store β) (store final : Store)
    (b : β) (done : (act >>= next) store = .ok b final) :
    ∃ a middle, act store = .ok a middle ∧ next a middle = .ok b final := by
  cases outcome : act store with
  | ok a middle =>
      refine ⟨a, middle, rfl, ?_⟩
      simpa only [bind, EStateM.bind, outcome] using done
  | error fault middle => simp only [bind, EStateM.bind, outcome, reduceCtorEq] at done

theorem regular_ok {ε α : Type} (book : Book) (act : EStateM ε Store α) (regular : Regular book act)
    (store next : Store) (a : α) (coherent : store.Coherent book) (done : act store = .ok a next) :
    Follows store next ∧ next.Coherent book := ends_ok act store next a _ _ (regular.ends store coherent) done

theorem repeats_bind {α β : Type} (book : Book) (act again : Action α) (next onward : α → Action β)
    (first : Repeats book act again) (rest : ∀ a, Repeats book (next a) (onward a)) :
    Repeats book (act >>= next) (again >>= onward) := by
  refine ⟨regular_bind book act next first.regular fun a => (rest a).regular, ?_⟩
  intro store final b coherent done later grown laterCoherent
  obtain ⟨a, middle, begun, ended⟩ := done_parts act next store final b done
  have known := regular_ok book act first.regular store middle a coherent begun
  have further := regular_ok book (next a) (rest a).regular middle final b known.2 ended
  have whole := extends_trans middle final later further.1.grown grown
  have replayed := first.replays store middle a coherent begun later whole laterCoherent
  refine replays_bind book again onward later a b replayed fun last only lastCoherent => ?_
  have kept := builds_extends later last (only_memo_builds later last only)
  exact (rest a).replays middle final b known.2 ended last (extends_trans final later last grown kept) lastCoherent

theorem repeats_composes (book : Book) : Composes fun act => Repeats book act act :=
  ⟨repeats_pure book, fun act next => repeats_bind book act act next next⟩

theorem repeats_settled {α : Type} (book : Book) (act again : Action α) (regular : Regular book act)
    (holds : α → Store → Prop) (broken : Store → Fault → Store → Prop)
    (ends : ∀ store, store.Coherent book → Ends act store (fun a next => Advances book store next ∧ holds a next)
      (broken store))
    (lasting : ∀ a old new, Extends old new → holds a old → holds a new)
    (replays : ∀ a later, later.Coherent book → holds a later → Replays book again later a) :
    Repeats book act again := by
  refine ⟨regular, fun store next a coherent done later grown laterCoherent => ?_⟩
  have known := ends_ok act store next a _ _ (ends store coherent) done
  exact replays a later laterCoherent (lasting a next later grown known.2)

theorem branch_allocated (v : Var) (low high : Ref) (store next : Store) (r : Ref)
    (done : branch v low high store = .ok r next) : 0 < v ∧ v ≤ store.numVars := by
  rw [branch_run] at done
  cases checked : store.checkAllocated v with
  | ok _ => exact (check_allocated store v).mp checked
  | error fault => simp only [checked, reduceCtorEq] at done

theorem repeats_branch (book : Book) (v : Var) (low high : Ref) :
    Repeats book (branch v low high) (branch v low high) := by
  refine ⟨regular_branch book v low high, fun store next r coherent done later grown laterCoherent => ?_⟩
  obtain ⟨positive, bound⟩ := branch_allocated v low high store next r done
  obtain ⟨advanced, made⟩ := ends_ok _ store next r _ _ (advance_branch book store coherent v low high) done
  have inside := Nat.le_trans (Nat.le_trans bound (advances_extends book store next advanced).vars) grown.vars
  exact replays_branch book later laterCoherent v low high r positive inside
    (made_extends next later grown v low high r made)

theorem repeats_literal (book : Book) (v : Var) (value : Bool) : Repeats book (literal v value) (literal v value) := by
  cases value with
  | true => exact literal_true v ▸ repeats_branch book v 0 1
  | false => exact literal_false v ▸ repeats_branch book v 1 0

theorem repeats_combine (book : Book) (op : Connective) (f g : Ref) :
    Repeats book (combine op f g) (combine op f g) :=
  repeats_settled book _ _ (regular_combine book op f g) (fun r store => store.Combines op f g r) _
    (fun store coherent => advance_combine book op store coherent f g)
    (fun r old new grown => combines_extends old new grown op f g r)
    (fun r later coherent => replays_combined book op later coherent f g r)

theorem repeats_commuted (book : Book) (op : Connective) (f g : Ref) :
    Repeats book (combine op f g) (combine op g f) :=
  repeats_settled book _ _ (regular_combine book op f g) (fun r store => store.Combines op f g r) _
    (fun store coherent => advance_combine book op store coherent f g)
    (fun r old new grown => combines_extends old new grown op f g r)
    (fun r later coherent settled =>
      replays_combined book op later coherent g f r (combines_comm later op f g r settled))

theorem repeats_turned (book : Book) (op : Connective) (one oneAgain two twoAgain : Action Ref)
    (first : Repeats book one oneAgain) (second : Repeats book two twoAgain) :
    Repeats book (do let f ← one; let g ← two; combine op f g)
      (do let g ← twoAgain; let f ← oneAgain; combine op g f) := by
  have joins : ∀ f g, Regular book (combine op f g) := regular_combine book op
  refine ⟨regular_bind book _ _ first.regular fun f => regular_bind book _ _ second.regular (joins f), ?_⟩
  intro store final r coherent done later grown laterCoherent
  obtain ⟨f, middle, fDone, onward⟩ := done_parts _ _ store final r done
  obtain ⟨g, last, gDone, joined⟩ := done_parts _ _ middle final r onward
  have fKnown := regular_ok book _ first.regular store middle f coherent fDone
  have gKnown := regular_ok book _ second.regular middle last g fKnown.2 gDone
  have rKnown := regular_ok book _ (joins f g) last final r gKnown.2 joined
  have afterLast := extends_trans last final later rKnown.1.grown grown
  have afterMiddle := extends_trans middle last later gKnown.1.grown afterLast
  have kept : ∀ old new, OnlyMemo old new → Extends final old → Extends final new := fun old new only =>
    (extends_trans final old new · (builds_extends old new (only_memo_builds old new only)))
  have gReplayed := second.replays middle last g fKnown.2 gDone later afterLast laterCoherent
  refine replays_bind book twoAgain _ later g r gReplayed fun two toTwo twoCoherent => ?_
  have toTwoGrown := builds_extends later two (only_memo_builds later two toTwo)
  have fReplayed := first.replays store middle f coherent fDone two
    (extends_trans middle later two afterMiddle toTwoGrown) twoCoherent
  refine replays_bind book oneAgain _ two f r fReplayed fun one toOne oneCoherent => ?_
  exact (repeats_commuted book op f g).replays last final r gKnown.2 joined one
    (kept two one toOne (kept later two toTwo grown)) oneCoherent

theorem repeats_negate (book : Book) (f : Ref) : Repeats book (negate f) (negate f) :=
  repeats_settled book _ _ (regular_negate book f) (fun r store => store.Negates f r) _
    (fun store coherent => advance_negate book store coherent f)
    (fun r old new grown => negates_extends old new grown f r)
    (fun r later coherent => replays_negate book later coherent f r)

theorem repeats_choose (book : Book) (f g h : Ref) : Repeats book (choose f g h) (choose f g h) :=
  repeats_settled book _ _ (regular_choose book f g h) (fun r store => store.Chooses f g h r) _
    (fun store coherent => advance_choose book store coherent f g h)
    (fun r old new grown => chooses_extends old new grown f g h r)
    (fun r later coherent => replays_chosen book later coherent f g h r)

theorem repeats_quantify (book : Book) (q : Quantifier) (f set : Ref) :
    Repeats book (quantify q f set) (quantify q f set) :=
  repeats_settled book _ _ (regular_quantify book q f set) (fun r store => store.Quantifies q f set r) _
    (fun store coherent => advance_quantify book q store coherent f set)
    (fun r old new grown => quantifies_extends old new grown q f set r)
    (fun r later coherent => replays_quantified book q later coherent f set r)

theorem repeats_rename (book : Book) (names : Renaming) (named : book names.id = some names.image) (f : Ref) :
    Repeats book (rename names f) (rename names f) := by
  cases empty : names.isEmpty with
  | true => exact rename_empty names f empty ▸ repeats_pure book f
  | false =>
      exact repeats_settled book _ _ (regular_rename book names named f)
        (fun r store => store.Renames names.image f r) _
        (fun store coherent => advance_rename book names named store coherent f empty)
        (fun r old new grown => renames_extends old new grown names.image f r)
        (fun r later coherent => replays_renamed book names named later coherent f r empty)

theorem repeats_construction (book : Book) (construction : Construction) :
    Repeats book construction.run construction.run := by
  cases construction with
  | literal v value => exact repeats_literal book v value
  | branch v low high => exact repeats_branch book v low high
  | combine op f g => exact repeats_combine book op f g
  | negate f => exact repeats_negate book f
  | choose f g h => exact repeats_choose book f g h
  | conjunction fs => exact composes_foldlM (repeats_composes book) (combine .and) (repeats_combine book .and) fs 1
  | disjunction fs => exact composes_foldlM (repeats_composes book) (combine .or) (repeats_combine book .or) fs 0
  | cube vars =>
      exact composes_foldrM (repeats_composes book) (fun v rest => branch v 0 rest)
        (fun v rest => repeats_branch book v 0 rest)
        (Var.sorted vars) 1
  | quantify q f set => exact repeats_quantify book q f set

end Action
end DomainDiagram
