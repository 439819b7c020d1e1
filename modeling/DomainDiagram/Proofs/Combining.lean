import DomainDiagram.Proofs.Branching

set_option autoImplicit false

namespace DomainDiagram

namespace Store

theorem heads_allocated (store : Store) (sound : store.Sound) (v : Var) (f : Ref) (heads : store.Heads v f) :
    0 < v ∧ v ≤ store.numVars := by
  obtain ⟨low, high, tests⟩ := heads
  exact sound.allocated f _ tests

theorem depth_read_live (store : Store) (f : Ref) (d : Nat) (read : store.depth f = .ok d) :
    store.Live f := by
  rcases depth_cases store f d read with ⟨small, _⟩ | ⟨low, high, tests⟩
  · exact .inl small
  · exact .inr ⟨_, tests⟩

theorem depth_heads (store : Store) (f : Ref) (d : Nat) (read : store.depth f = .ok d)
    (inside : d ≤ store.numVars) : store.Heads d f := by
  rcases depth_cases store f d read with ⟨_, rfl⟩ | heads
  · exact absurd inside (Nat.not_succ_le_self _)
  · exact heads

theorem depth_inside (store : Store) (sound : store.Sound) (f : Ref) (d : Nat)
    (read : store.depth f = .ok d) (large : 2 ≤ f) : d ≤ store.numVars := by
  rcases depth_cases store f d read with ⟨small, _⟩ | heads
  · exact absurd large (Nat.not_le_of_lt (Nat.lt_succ_of_le small))
  · exact (heads_allocated store sound d f heads).2

theorem depth_failed (store : Store) (f : Ref) (fault : Fault) (failed : store.depth f = .error fault) :
    ¬ store.Live f := by
  intro live
  obtain ⟨d, read⟩ := depth_live store f live
  rw [read] at failed
  exact nomatch failed

theorem split_two (store : Store) (sound : store.Sound) (f g : Ref) (d e : Nat)
    (first : store.depth f = .ok d) (second : store.depth g = .ok e) (decision : 2 ≤ f ∨ 2 ≤ g) :
    ∃ f0 f1 g0 g1, store.cofactors f (min d e) = .ok (f0, f1) ∧ store.cofactors g (min d e) = .ok (g0, g1) ∧
      store.Splits (min d e) f f0 f1 ∧ store.Splits (min d e) g g0 g1 ∧
      (store.Heads (min d e) f ∨ store.Heads (min d e) g) := by
  obtain ⟨f0, f1, fRead, fSplits⟩ := cofactors_splits store f d (min d e) first (by omega)
  obtain ⟨g0, g1, gRead, gSplits⟩ := cofactors_splits store g e (min d e) second (by omega)
  have inside : d ≤ store.numVars ∨ e ≤ store.numVars :=
    decision.imp (depth_inside store sound f d first) (depth_inside store sound g e second)
  have least : min d e = d ∨ min d e = e := by omega
  refine ⟨f0, f1, g0, g1, fRead, gRead, fSplits, gSplits, least.imp (fun same => ?_) (fun same => ?_)⟩
  · rw [same]
    exact depth_heads store f d first (by omega)
  · rw [same]
    exact depth_heads store g e second (by omega)

theorem split_three (store : Store) (sound : store.Sound) (f g h : Ref) (d e i : Nat)
    (first : store.depth f = .ok d) (second : store.depth g = .ok e) (third : store.depth h = .ok i)
    (decision : 2 ≤ f) :
    ∃ f0 f1 g0 g1 h0 h1, store.cofactors f (min d (min e i)) = .ok (f0, f1) ∧
      store.cofactors g (min d (min e i)) = .ok (g0, g1) ∧
      store.cofactors h (min d (min e i)) = .ok (h0, h1) ∧
      store.Splits (min d (min e i)) f f0 f1 ∧ store.Splits (min d (min e i)) g g0 g1 ∧
      store.Splits (min d (min e i)) h h0 h1 ∧
      (store.Heads (min d (min e i)) f ∨ store.Heads (min d (min e i)) g ∨
        store.Heads (min d (min e i)) h) := by
  obtain ⟨f0, f1, fRead, fSplits⟩ := cofactors_splits store f d (min d (min e i)) first (by omega)
  obtain ⟨g0, g1, gRead, gSplits⟩ := cofactors_splits store g e (min d (min e i)) second (by omega)
  obtain ⟨h0, h1, hRead, hSplits⟩ := cofactors_splits store h i (min d (min e i)) third (by omega)
  have inside := depth_inside store sound f d first decision
  have least : min d (min e i) = d ∨ min d (min e i) = e ∨ min d (min e i) = i := by omega
  refine ⟨f0, f1, g0, g1, h0, h1, fRead, gRead, hRead, fSplits, gSplits, hSplits, ?_⟩
  rcases least with same | same | same
  · rw [same]
    exact .inl (depth_heads store f d first (by omega))
  · rw [same]
    exact .inr (.inl (depth_heads store g e second (by omega)))
  · rw [same]
    exact .inr (.inr (depth_heads store h i third (by omega)))

theorem read_two (store : Store) (sound : store.Sound) (v : Var) (f g f0 f1 g0 g1 : Ref)
    (heads : store.Heads v f ∨ store.Heads v g) (left : store.Splits v f f0 f1)
    (right : store.Splits v g g0 g1) :
    ∃ d e, store.depth f = .ok d ∧ store.depth g = .ok e ∧ min d e = v := by
  obtain ⟨d, first⟩ := depth_live store f (splits_live store v f f0 f1 left)
  obtain ⟨e, second⟩ := depth_live store g (splits_live store v g g0 g1 right)
  have decision : 2 ≤ f ∨ 2 ≤ g := heads.imp (fun ⟨_, _, tests⟩ => tests.1) (fun ⟨_, _, tests⟩ => tests.1)
  obtain ⟨a0, a1, b0, b1, _, _, aSplits, bSplits, least⟩ := split_two store sound f g d e first second decision
  refine ⟨d, e, first, second, Nat.le_antisymm ?_ ?_⟩
  · exact heads_unique store (min d e) v f g a0 a1 b0 b1 heads aSplits bSplits
  · exact heads_unique store v (min d e) f g f0 f1 g0 g1 least left right

theorem settled_commuted (store : Store) (book : Book) (op : Connective) (f g r : Ref) :
    store.Settled book (.commuted op f g) r ↔ store.Combines op f g r := by
  unfold OpKey.commuted
  split
  · exact Iff.rfl
  · exact ⟨combines_comm store op g f r, combines_comm store op f g r⟩

theorem commuted_operands (op : Connective) (f g : Ref) (holds : Ref → Prop) :
    (∀ h ∈ (OpKey.commuted op f g).operands, holds h) ↔ ∀ h ∈ [f, g], holds h := by
  unfold OpKey.commuted
  split
  · exact Iff.rfl
  · simp [OpKey.operands, and_comm]

end Store

namespace Action

open Store

theorem combine_from_shortcut (op : Connective) (steps : Nat) (f g r : Ref)
    (known : op.shortcut f g = some r) : combineFrom op (steps + 1) f g = pure r := by
  simp only [combineFrom, known]

theorem advance_combine_from (book : Book) (op : Connective) (steps : Nat) (store : Store)
    (coherent : store.Coherent book) (f g : Ref) :
    Ends (combineFrom op steps f g) store
      (fun r next => Advances book store next ∧ next.Combines op f g r)
      (fun _ next => Advances book store next ∧ store.Refuses steps [f, g]) := by
  induction steps generalizing store f g with
  | zero => exact ⟨advances_refl book store coherent, refuses_none store _⟩
  | succ steps ih =>
      cases known : op.shortcut f g with
      | some r =>
          rw [combine_from_shortcut op steps f g r known]
          exact ⟨advances_refl book store coherent, .shortcut f g r known⟩
      | none =>
          simp only [combineFrom, known]
          refine advance_memoized book _ _ store coherent _ _
            (fun r later _ settled => (settled_commuted later book op f g r).mp settled) ?_
          intro next only nextCoherent
          have start := advances_refl book next nextCoherent
          have reached := builds_extends store next (only_memo_builds store next only)
          refine ends_look _ _ next _ _ (fun d first => ?_) fun fault failed =>
            ⟨start, refuses_dead store _ _ f (by simp) fun live =>
              depth_failed next f fault failed (extends_live store next reached f live)⟩
          refine ends_look _ _ next _ _ (fun e second => ?_) fun fault failed =>
            ⟨start, refuses_dead store _ _ g (by simp) fun live =>
              depth_failed next g fault failed (extends_live store next reached g live)⟩
          obtain ⟨f0, f1, g0, g1, fRead, gRead, left, right, heads⟩ :=
            split_two next nextCoherent.sound f g d e first second (op.shortcut_decision f g known)
          obtain ⟨positive, bound⟩ : 0 < min d e ∧ min d e ≤ next.numVars :=
            heads.elim (heads_allocated next nextCoherent.sound _ f)
              (heads_allocated next nextCoherent.sound _ g)
          obtain ⟨f0Below, f1Below⟩ := splits_below next nextCoherent.sound _ f f0 f1 left
          obtain ⟨g0Below, g1Below⟩ := splits_below next nextCoherent.sound _ g g0 g1 right
          have keep : ∀ later, Advances book next later → ∀ a, next.Below (min d e) a →
              later.Below (min d e) a := fun later advanced =>
            extends_below next later (advances_extends book next later advanced) _
          have descend : ∀ later, Advances book next later → ∀ a b, next.Below (min d e) a →
              next.Below (min d e) b → later.Refuses steps [a, b] → store.Refuses (steps + 1) [f, g] := by
            intro later advanced a b aBelow bBelow
            exact refuses_deeper book store next later only advanced steps [f, g] [a, b] (min d e)
              (by simpa using heads) (by simp [aBelow, bBelow])
          refine ends_read _ _ next _ _ _ fRead (ends_read _ _ next _ _ _ gRead ?_)
          refine advance_halves book _ _ next (min d e) (fun r later => later.Combines op f0 g0 r)
            (fun r later => later.Combines op f1 g1 r) _ _ _ _ positive bound
            (fun r old new grown => combines_extends old new grown op f0 g0 r)
            (fun r old new grown => combines_extends old new grown op f1 g1 r)
            (ih next nextCoherent f0 g0) (fun later advanced => ih later advanced.coherent f1 g1)
            (descend next start f0 g0 f0Below g0Below)
            (fun later advanced => descend later advanced f1 g1 f1Below g1Below)
            (fun r later advanced => combines_below later advanced.coherent.sound op _ f0 g0 r
              (keep later advanced f0 f0Below) (keep later advanced g0 g0Below))
            (fun r later advanced => combines_below later advanced.coherent.sound op _ f1 g1 r
              (keep later advanced f1 f1Below) (keep later advanced g1 g1Below)) ?_
          intro low high r later grown lowHalf highHalf made
          have laterLeft := extends_splits next later grown _ f f0 f1 left
          have laterRight := extends_splits next later grown _ g g0 g1 right
          refine ⟨(commuted_operands op f g later.Live).mpr ?_, (settled_commuted later book op f g r).mpr ?_⟩
          · simp [splits_live later _ f f0 f1 laterLeft, splits_live later _ g g0 g1 laterRight]
          · exact .split f g r _ f0 f1 g0 g1 low high known
              (heads.imp (extends_heads next later grown _ f) (extends_heads next later grown _ g))
              laterLeft laterRight lowHalf highHalf made

theorem replays_combine_from (book : Book) (op : Connective) (steps : Nat) (store : Store)
    (coherent : store.Coherent book) (f g r : Ref) (within : store.Within steps [f, g])
    (live : ∀ h ∈ [f, g], store.Live h) (settled : store.Combines op f g r) :
    Replays book (combineFrom op steps f g) store r := by
  induction steps generalizing store f g r with
  | zero => exact absurd within (within_none store _)
  | succ steps ih =>
      cases settled with
      | shortcut _ _ _ known =>
          rw [combine_from_shortcut op steps f g r known]
          exact replays_pure book store coherent r
      | split _ _ _ v f0 f1 g0 g1 low high unknown heads left right lowHalf highHalf made =>
          have sound := coherent.sound
          obtain ⟨positive, bound⟩ : 0 < v ∧ v ≤ store.numVars :=
            heads.elim (heads_allocated store sound v f) (heads_allocated store sound v g)
          obtain ⟨f0Below, f1Below⟩ := splits_below store sound v f f0 f1 left
          obtain ⟨g0Below, g1Below⟩ := splits_below store sound v g g0 g1 right
          obtain ⟨d, e, first, second, rfl⟩ := read_two store sound v f g f0 f1 g0 g1 heads left right
          have half : ∀ later, OnlyMemo store later → later.Coherent book → ∀ a b c,
              store.Below (min d e) a → store.Below (min d e) b → store.Combines op a b c →
              Replays book (combineFrom op steps a b) later c := by
            intro later only laterCoherent a b c aBelow bBelow halfSettled
            have built := only_memo_builds store later only
            obtain ⟨fewer, inside⟩ := within_deeper book store store later (only_memo_refl store)
              ⟨built, laterCoherent⟩ steps [f, g] [a, b] (min d e) live (by simpa using heads)
              (by simp [aBelow, bBelow]) within
            exact ih later laterCoherent a b c fewer inside
              (combines_extends store later (builds_extends store later built) op a b c halfSettled)
          simp only [combineFrom, unknown]
          refine replays_memoized book _ _ store coherent r ((commuted_operands op f g store.Live).mpr live)
            ((settled_commuted store book op f g r).mpr
              (.split f g r _ f0 f1 g0 g1 low high unknown heads left right lowHalf highHalf made)) ?_
          intro next only nextCoherent
          have built := only_memo_builds store next only
          have grown := builds_extends store next built
          have same := only_memo_bare store next only
          refine replays_look book _ _ next d r ((bare_blind (·.depth f) (fun _ => rfl) _ _ same).symm.trans first)
            (replays_look book _ _ next e r ((bare_blind (·.depth g) (fun _ => rfl) _ _ same).symm.trans second) ?_)
          have leftRead := splits_cofactors next _ f f0 f1 (extends_splits store next grown _ f f0 f1 left)
          have rightRead := splits_cofactors next _ g g0 g1 (extends_splits store next grown _ g g0 g1 right)
          refine replays_look book _ _ next _ r leftRead (replays_look book _ _ next _ r rightRead ?_)
          exact replays_halves book _ _ next _ low high r positive (built.vars ▸ bound)
            (made_extends store next grown _ low high r made)
            (half next only nextCoherent f0 g0 low f0Below g0Below lowHalf)
            (fun later further laterCoherent => half later (only_memo_trans _ _ _ only further) laterCoherent
              f1 g1 high f1Below g1Below highHalf)

theorem grows_combine_from (book : Book) (op : Connective) (steps : Nat) (f g : Ref) :
    Grows book (combineFrom op steps f g) :=
  ends_grows book _ (fun _ r next => next.Combines op f g r) (fun store => store.Refuses steps [f, g])
    fun store coherent => advance_combine_from book op steps store coherent f g

theorem bare_combine_from (book : Book) (op : Connective) (steps : Nat) (left right : Store)
    (stores : left.bare = right.bare) (leftCoherent : left.Coherent book)
    (rightCoherent : right.Coherent book) (f g : Ref) (within : left.Within steps [f, g]) :
    bare (combineFrom op steps f g left) = bare (combineFrom op steps f g right) := by
  induction steps generalizing left right f g with
  | zero => exact absurd within (within_none left _)
  | succ steps ih =>
      cases known : op.shortcut f g with
      | some r =>
          rw [combine_from_shortcut op steps f g r known]
          exact congrArg (EStateM.Result.ok r) stores
      | none =>
          have replay : ∀ r store, left.bare = store.bare → store.Coherent book →
              store.Settled book (.commuted op f g) r →
              (∀ h ∈ (OpKey.commuted op f g).operands, store.Live h) →
              Replays book (combineFrom op (steps + 1) f g) store r := by
            intro r store alike coherent settled operands
            exact replays_combine_from book op (steps + 1) store coherent f g r
              (within_same left store alike _ _ within) ((commuted_operands op f g store.Live).mp operands)
              ((settled_commuted store book op f g r).mp settled)
          simp only [combineFrom, known] at replay ⊢
          refine bare_memoized book _ _ left right stores leftCoherent rightCoherent replay ?_
          intro a b leftOnly rightOnly aCoherent bCoherent
          have same : a.bare = b.bare :=
            (only_memo_bare left a leftOnly).symm.trans (stores.trans (only_memo_bare right b rightOnly))
          refine bare_look _ _ a b same (bare_blind (·.depth f) (fun _ => rfl) a b same) fun d first => ?_
          refine bare_look _ _ a b same (bare_blind (·.depth g) (fun _ => rfl) a b same) fun e second => ?_
          obtain ⟨f0, f1, g0, g1, fRead, gRead, fSplits, gSplits, heads⟩ :=
            split_two a aCoherent.sound f g d e first second (op.shortcut_decision f g known)
          refine bare_read _ _ a b _ fRead (bare_blind (·.cofactors f _) (fun _ => rfl) a b same) ?_
          refine bare_read _ _ a b _ gRead (bare_blind (·.cofactors g _) (fun _ => rfl) a b same) ?_
          obtain ⟨f0Below, f1Below⟩ := splits_below a aCoherent.sound _ f f0 f1 fSplits
          obtain ⟨g0Below, g1Below⟩ := splits_below a aCoherent.sound _ g g0 g1 gSplits
          have fits : ∀ later, Advances book a later → ∀ p q, a.Below (min d e) p → a.Below (min d e) q →
              later.Within steps [p, q] := by
            intro later advanced p q pBelow qBelow
            have lives : ∀ h ∈ [f, g], a.Live h := by
              simp [depth_read_live a f d first, depth_read_live a g e second]
            exact (within_deeper book a a later (only_memo_refl a) advanced steps [f, g] [p, q] (min d e) lives
              (by simpa using heads) (by simp [pBelow, qBelow])
              (within_same left a (only_memo_bare left a leftOnly) _ _ within)).1
          refine bare_both book _ _ _ a b aCoherent bCoherent (grows_combine_from book op steps f0 g0)
            (grows_combine_from book op steps f1 g1) ?_ (fun c i leftDone rightDone alike => ?_)
            (fun low high c i _ _ alike => bare_branch c i alike (min d e) low high)
          · exact ih a b same aCoherent bCoherent f0 g0
              (fits a (advances_refl book a aCoherent) f0 g0 f0Below g0Below)
          · exact ih c i alike leftDone.coherent rightDone.coherent f1 g1 (fits c leftDone f1 g1 f1Below g1Below)

theorem combine_run (op : Connective) (f g : Ref) (store : Store) :
    combine op f g store = combineFrom op store.steps f g store := rfl

theorem advance_combine (book : Book) (op : Connective) (store : Store) (coherent : store.Coherent book)
    (f g : Ref) :
    Ends (combine op f g) store (fun r next => Advances book store next ∧ next.Combines op f g r)
      (fun _ next => Advances book store next ∧ ¬ ∀ h ∈ [f, g], store.Live h) := by
  unfold Ends
  rw [combine_run]
  exact ends_mono _ store _ _ _ _ (advance_combine_from book op store.steps store coherent f g)
    (fun _ _ known => known)
    (fun _ _ known => ⟨known.1, known.2 (within_steps store coherent.sound [f, g])⟩)

theorem replays_combine (book : Book) (op : Connective) (store : Store) (coherent : store.Coherent book)
    (f g r : Ref) (live : ∀ h ∈ [f, g], store.Live h) (settled : store.Combines op f g r) :
    Replays book (combine op f g) store r := by
  unfold Replays
  rw [combine_run]
  exact replays_combine_from book op store.steps store coherent f g r
    (within_steps store coherent.sound [f, g]) live settled

theorem bare_combine (book : Book) (op : Connective) (left right : Store) (stores : left.bare = right.bare)
    (leftCoherent : left.Coherent book) (rightCoherent : right.Coherent book) (f g : Ref) :
    bare (combine op f g left) = bare (combine op f g right) := by
  rw [combine_run, combine_run, ← bare_blind steps (fun _ => rfl) left right stores]
  exact bare_combine_from book op left.steps left right stores leftCoherent rightCoherent f g
    (within_steps left leftCoherent.sound [f, g])

end Action
end DomainDiagram
