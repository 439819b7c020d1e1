import DomainDiagram.Proofs.Combining
import DomainDiagram.Proofs.Negating

set_option autoImplicit false

namespace DomainDiagram

namespace Store

theorem read_three (store : Store) (sound : store.Sound) (v : Var) (f g h f0 f1 g0 g1 h0 h1 : Ref)
    (decision : 2 ≤ f) (heads : store.Heads v f ∨ store.Heads v g ∨ store.Heads v h)
    (first : store.Splits v f f0 f1) (second : store.Splits v g g0 g1) (third : store.Splits v h h0 h1) :
    ∃ d e i, store.depth f = .ok d ∧ store.depth g = .ok e ∧ store.depth h = .ok i ∧
      min d (min e i) = v := by
  obtain ⟨d, fRead⟩ := depth_live store f (splits_live store v f f0 f1 first)
  obtain ⟨e, gRead⟩ := depth_live store g (splits_live store v g g0 g1 second)
  obtain ⟨i, hRead⟩ := depth_live store h (splits_live store v h h0 h1 third)
  obtain ⟨a0, a1, b0, b1, c0, c1, _, _, _, aSplits, bSplits, cSplits, least⟩ :=
    split_three store sound f g h d e i fRead gRead hRead decision
  refine ⟨d, e, i, fRead, gRead, hRead, Nat.le_antisymm ?_ ?_⟩
  · exact third_heads_unique store _ v f g h a0 a1 b0 b1 c0 c1 heads aSplits bSplits cSplits
  · exact third_heads_unique store v _ f g h f0 f1 g0 g1 h0 h1 least first second third

theorem third_heads_extends (old new : Store) (grown : Extends old new) (v : Var) (f g h : Ref)
    (heads : old.Heads v f ∨ old.Heads v g ∨ old.Heads v h) :
    new.Heads v f ∨ new.Heads v g ∨ new.Heads v h :=
  heads.imp (extends_heads old new grown v f)
    (Or.imp (extends_heads old new grown v g) (extends_heads old new grown v h))

end Store

namespace Action

open Store

theorem choose_from_route (steps : Nat) (f g h : Ref) : chooseFrom (steps + 1) f g h =
    match route f g h with
    | .known r => pure r
    | .negation => negate f
    | .disjunction => combine .or f h
    | .conjunction => combine .and f g
    | .halves => memoized (.choose f g h) (do
        let first ← inspect (·.depth f)
        let second ← inspect (·.depth g)
        let third ← inspect (·.depth h)
        let (f0, f1) ← inspect (·.cofactors f (min first (min second third)))
        let (g0, g1) ← inspect (·.cofactors g (min first (min second third)))
        let (h0, h1) ← inspect (·.cofactors h (min first (min second third)))
        let low ← chooseFrom steps f0 g0 h0
        let high ← chooseFrom steps f1 g1 h1
        branch (min first (min second third)) low high) := by
  rw [chooseFrom, route]
  split
  · rfl
  · split
    · rfl
    · split
      · rfl
      · split
        · rfl
        · split
          · rfl
          · split <;> rfl

theorem advance_choose_from (book : Book) (steps : Nat) (store : Store) (coherent : store.Coherent book)
    (f g h : Ref) :
    Ends (chooseFrom steps f g h) store (fun r next => Advances book store next ∧ next.Chooses f g h r)
      (fun _ next => Advances book store next ∧ store.Refuses steps [f, g, h]) := by
  induction steps generalizing store f g h with
  | zero => exact ⟨advances_refl book store coherent, refuses_none store _⟩
  | succ steps ih =>
      rw [choose_from_route]
      cases way : route f g h with
      | known r => exact ⟨advances_refl book store coherent, .known f g h r way⟩
      | negation =>
          exact ends_mono _ store _ _ _ _ (advance_negate book store coherent f)
            (fun r next known => ⟨known.1, .negation f g h r way known.2⟩)
            (fun _ _ known => ⟨known.1, refuses_part store _ _ [f] (by simp) known.2⟩)
      | disjunction =>
          exact ends_mono _ store _ _ _ _ (advance_combine book .or store coherent f h)
            (fun r next known => ⟨known.1, .disjunction f g h r way known.2⟩)
            (fun _ _ known => ⟨known.1, refuses_part store _ _ [f, h] (by simp) known.2⟩)
      | conjunction =>
          exact ends_mono _ store _ _ _ _ (advance_combine book .and store coherent f g)
            (fun r next known => ⟨known.1, .conjunction f g h r way known.2⟩)
            (fun _ _ known => ⟨known.1, refuses_part store _ _ [f, g] (by simp) known.2⟩)
      | halves =>
          refine advance_memoized book _ _ store coherent _ _ (fun r later _ settled => settled) ?_
          intro next only nextCoherent
          have start := advances_refl book next nextCoherent
          have reached := builds_extends store next (only_memo_builds store next only)
          have dead : ∀ a ∈ [f, g, h], ∀ fault, next.depth a = .error fault →
              store.Refuses (steps + 1) [f, g, h] := fun a member fault failed =>
            refuses_dead store _ _ a member fun live =>
              depth_failed next a fault failed (extends_live store next reached a live)
          refine ends_look _ _ next _ _ (fun d fRead => ?_) fun fault failed =>
            ⟨start, dead f (by simp) fault failed⟩
          refine ends_look _ _ next _ _ (fun e gRead => ?_) fun fault failed =>
            ⟨start, dead g (by simp) fault failed⟩
          refine ends_look _ _ next _ _ (fun i hRead => ?_) fun fault failed =>
            ⟨start, dead h (by simp) fault failed⟩
          obtain ⟨f0, f1, g0, g1, h0, h1, f01, g01, h01, first, second, third, heads⟩ :=
            split_three next nextCoherent.sound f g h d e i fRead gRead hRead (route_halves f g h way)
          generalize min d (min e i) = v at *
          obtain ⟨positive, bound⟩ : 0 < v ∧ v ≤ next.numVars := by
            rcases heads with heads | heads | heads <;> exact heads_allocated next nextCoherent.sound _ _ heads
          obtain ⟨f0Below, f1Below⟩ := splits_below next nextCoherent.sound v f f0 f1 first
          obtain ⟨g0Below, g1Below⟩ := splits_below next nextCoherent.sound v g g0 g1 second
          obtain ⟨h0Below, h1Below⟩ := splits_below next nextCoherent.sound v h h0 h1 third
          have keep : ∀ later, Advances book next later → ∀ a, next.Below v a → later.Below v a :=
            fun later advanced => extends_below next later (advances_extends book next later advanced) v
          have descend : ∀ later, Advances book next later → ∀ a b c, next.Below v a → next.Below v b →
              next.Below v c → later.Refuses steps [a, b, c] → store.Refuses (steps + 1) [f, g, h] := by
            intro later advanced a b c aBelow bBelow cBelow
            exact refuses_deeper book store next later only advanced steps [f, g, h] [a, b, c] v
              (by simpa using heads) (by simp [aBelow, bBelow, cBelow])
          refine ends_read _ _ next _ _ _ f01 (ends_read _ _ next _ _ _ g01 (ends_read _ _ next _ _ _ h01 ?_))
          refine advance_halves book _ _ next v (fun r later => later.Chooses f0 g0 h0 r)
            (fun r later => later.Chooses f1 g1 h1 r) _ _ _ _ positive bound
            (fun r old new grown => chooses_extends old new grown f0 g0 h0 r)
            (fun r old new grown => chooses_extends old new grown f1 g1 h1 r)
            (ih next nextCoherent f0 g0 h0) (fun later advanced => ih later advanced.coherent f1 g1 h1)
            (descend next start f0 g0 h0 f0Below g0Below h0Below)
            (fun later advanced => descend later advanced f1 g1 h1 f1Below g1Below h1Below)
            (fun r later advanced => chooses_below later advanced.coherent.sound v f0 g0 h0 r
              (keep later advanced f0 f0Below) (keep later advanced g0 g0Below) (keep later advanced h0 h0Below))
            (fun r later advanced => chooses_below later advanced.coherent.sound v f1 g1 h1 r
              (keep later advanced f1 f1Below) (keep later advanced g1 g1Below) (keep later advanced h1 h1Below))
            ?_
          intro low high r later grown lowHalf highHalf made
          have first := extends_splits next later grown v f f0 f1 first
          have second := extends_splits next later grown v g g0 g1 second
          have third := extends_splits next later grown v h h0 h1 third
          refine ⟨?_, .split f g h r v f0 f1 g0 g1 h0 h1 low high way
            (third_heads_extends next later grown v f g h heads) first second third lowHalf highHalf made⟩
          simp [OpKey.operands, splits_live later v f f0 f1 first, splits_live later v g g0 g1 second,
            splits_live later v h h0 h1 third]

theorem replays_choose_from (book : Book) (steps : Nat) (store : Store) (coherent : store.Coherent book)
    (f g h r : Ref) (within : store.Within steps [f, g, h]) (live : ∀ a ∈ [f, g, h], store.Live a)
    (settled : store.Chooses f g h r) : Replays book (chooseFrom steps f g h) store r := by
  induction steps generalizing store f g h r with
  | zero => exact absurd within (within_none store _)
  | succ steps ih =>
      rw [choose_from_route]
      cases settled with
      | known _ _ _ _ way =>
          rw [way]
          exact replays_pure book store coherent r
      | negation _ _ _ _ way settled =>
          rw [way]
          exact replays_negate book store coherent f r settled
      | disjunction _ _ _ _ way settled =>
          rw [way]
          exact replays_combine book .or store coherent f h r
            (fun a member => live a (by simp at member ⊢; lia)) settled
      | conjunction _ _ _ _ way settled =>
          rw [way]
          exact replays_combine book .and store coherent f g r
            (fun a member => live a (by simp at member ⊢; lia)) settled
      | split _ _ _ _ v f0 f1 g0 g1 h0 h1 low high way heads first second third lowHalf highHalf made =>
          rw [way]
          have sound := coherent.sound
          obtain ⟨positive, bound⟩ : 0 < v ∧ v ≤ store.numVars := by
            rcases heads with heads | heads | heads <;> exact heads_allocated store sound _ _ heads
          obtain ⟨f0Below, f1Below⟩ := splits_below store sound v f f0 f1 first
          obtain ⟨g0Below, g1Below⟩ := splits_below store sound v g g0 g1 second
          obtain ⟨h0Below, h1Below⟩ := splits_below store sound v h h0 h1 third
          obtain ⟨d, e, i, fRead, gRead, hRead, rfl⟩ := read_three store sound v f g h f0 f1 g0 g1 h0 h1
            (route_halves f g h way) heads first second third
          have half : ∀ later, OnlyMemo store later → later.Coherent book → ∀ a b c s,
              store.Below (min d (min e i)) a → store.Below (min d (min e i)) b →
              store.Below (min d (min e i)) c → store.Chooses a b c s →
              Replays book (chooseFrom steps a b c) later s := by
            intro later only laterCoherent a b c s aBelow bBelow cBelow halfSettled
            have built := only_memo_builds store later only
            obtain ⟨fewer, inside⟩ := within_deeper book store store later (only_memo_refl store)
              ⟨built, laterCoherent⟩ steps [f, g, h] [a, b, c] _ live (by simpa using heads)
              (by simp [aBelow, bBelow, cBelow]) within
            exact ih later laterCoherent a b c s fewer inside
              (chooses_extends store later (builds_extends store later built) a b c s halfSettled)
          refine replays_memoized book _ _ store coherent r live
            (.split f g h r _ f0 f1 g0 g1 h0 h1 low high way heads first second third lowHalf highHalf made) ?_
          intro next only nextCoherent
          have built := only_memo_builds store next only
          have grown := builds_extends store next built
          have same := only_memo_bare store next only
          refine replays_look book _ _ next d r ((bare_blind (·.depth f) (fun _ => rfl) _ _ same).symm.trans fRead) ?_
          refine replays_look book _ _ next e r ((bare_blind (·.depth g) (fun _ => rfl) _ _ same).symm.trans gRead) ?_
          refine replays_look book _ _ next i r ((bare_blind (·.depth h) (fun _ => rfl) _ _ same).symm.trans hRead) ?_
          refine replays_look book _ _ next _ r
            (splits_cofactors next _ f f0 f1 (extends_splits store next grown _ f f0 f1 first)) ?_
          refine replays_look book _ _ next _ r
            (splits_cofactors next _ g g0 g1 (extends_splits store next grown _ g g0 g1 second)) ?_
          refine replays_look book _ _ next _ r
            (splits_cofactors next _ h h0 h1 (extends_splits store next grown _ h h0 h1 third)) ?_
          exact replays_halves book _ _ next _ low high r positive (built.vars ▸ bound)
            (made_extends store next grown _ low high r made)
            (half next only nextCoherent f0 g0 h0 low f0Below g0Below h0Below lowHalf)
            (fun later further laterCoherent => half later (only_memo_trans _ _ _ only further) laterCoherent
              f1 g1 h1 high f1Below g1Below h1Below highHalf)

theorem grows_choose_from (book : Book) (steps : Nat) (f g h : Ref) : Grows book (chooseFrom steps f g h) :=
  ends_grows book _ (fun _ r next => next.Chooses f g h r) (fun store => store.Refuses steps [f, g, h])
    fun store coherent => advance_choose_from book steps store coherent f g h

theorem bare_choose_from (book : Book) (steps : Nat) (left right : Store)
    (stores : left.bare = right.bare) (leftCoherent : left.Coherent book)
    (rightCoherent : right.Coherent book) (f g h : Ref) (within : left.Within steps [f, g, h]) :
    bare (chooseFrom steps f g h left) = bare (chooseFrom steps f g h right) := by
  induction steps generalizing left right f g h with
  | zero => exact absurd within (within_none left _)
  | succ steps ih =>
      have replay : ∀ r store, left.bare = store.bare → store.Coherent book →
          store.Settled book (.choose f g h) r → (∀ a ∈ (OpKey.choose f g h).operands, store.Live a) →
          Replays book (chooseFrom (steps + 1) f g h) store r := by
        intro r store alike coherent settled operands
        exact replays_choose_from book (steps + 1) store coherent f g h r
          (within_same left store alike _ _ within) operands settled
      rw [choose_from_route] at replay ⊢
      cases way : route f g h with
      | known r => exact congrArg (EStateM.Result.ok r) stores
      | negation => exact bare_negate book left right stores leftCoherent rightCoherent f
      | disjunction => exact bare_combine book .or left right stores leftCoherent rightCoherent f h
      | conjunction => exact bare_combine book .and left right stores leftCoherent rightCoherent f g
      | halves =>
          rw [way] at replay
          refine bare_memoized book _ _ left right stores leftCoherent rightCoherent replay ?_
          intro a b leftOnly rightOnly aCoherent bCoherent
          have same : a.bare = b.bare :=
            (only_memo_bare left a leftOnly).symm.trans (stores.trans (only_memo_bare right b rightOnly))
          refine bare_look _ _ a b same (bare_blind (·.depth f) (fun _ => rfl) a b same) fun d fRead => ?_
          refine bare_look _ _ a b same (bare_blind (·.depth g) (fun _ => rfl) a b same) fun e gRead => ?_
          refine bare_look _ _ a b same (bare_blind (·.depth h) (fun _ => rfl) a b same) fun i hRead => ?_
          obtain ⟨f0, f1, g0, g1, h0, h1, f01, g01, h01, first, second, third, heads⟩ :=
            split_three a aCoherent.sound f g h d e i fRead gRead hRead (route_halves f g h way)
          refine bare_read _ _ a b _ f01 (bare_blind (·.cofactors f _) (fun _ => rfl) a b same) ?_
          refine bare_read _ _ a b _ g01 (bare_blind (·.cofactors g _) (fun _ => rfl) a b same) ?_
          refine bare_read _ _ a b _ h01 (bare_blind (·.cofactors h _) (fun _ => rfl) a b same) ?_
          obtain ⟨f0Below, f1Below⟩ := splits_below a aCoherent.sound _ f f0 f1 first
          obtain ⟨g0Below, g1Below⟩ := splits_below a aCoherent.sound _ g g0 g1 second
          obtain ⟨h0Below, h1Below⟩ := splits_below a aCoherent.sound _ h h0 h1 third
          have fits : ∀ later, Advances book a later → ∀ p q s, a.Below (min d (min e i)) p →
              a.Below (min d (min e i)) q → a.Below (min d (min e i)) s → later.Within steps [p, q, s] := by
            intro later advanced p q s pBelow qBelow sBelow
            have lives : ∀ x ∈ [f, g, h], a.Live x := by
              simp [depth_read_live a f d fRead, depth_read_live a g e gRead, depth_read_live a h i hRead]
            exact (within_deeper book a a later (only_memo_refl a) advanced steps [f, g, h] [p, q, s] _ lives
              (by simpa using heads) (by simp [pBelow, qBelow, sBelow])
              (within_same left a (only_memo_bare left a leftOnly) _ _ within)).1
          refine bare_both book _ _ _ a b aCoherent bCoherent (grows_choose_from book steps f0 g0 h0)
            (grows_choose_from book steps f1 g1 h1) ?_ (fun c j leftDone rightDone alike => ?_)
            (fun low high c j _ _ alike => bare_branch c j alike (min d (min e i)) low high)
          · exact ih a b same aCoherent bCoherent f0 g0 h0
              (fits a (advances_refl book a aCoherent) f0 g0 h0 f0Below g0Below h0Below)
          · exact ih c j alike leftDone.coherent rightDone.coherent f1 g1 h1
              (fits c leftDone f1 g1 h1 f1Below g1Below h1Below)

theorem choose_run (f g h : Ref) (store : Store) :
    choose f g h store = chooseFrom store.steps f g h store := rfl

theorem advance_choose (book : Book) (store : Store) (coherent : store.Coherent book) (f g h : Ref) :
    Ends (choose f g h) store (fun r next => Advances book store next ∧ next.Chooses f g h r)
      (fun _ next => Advances book store next ∧ ¬ ∀ a ∈ [f, g, h], store.Live a) := by
  unfold Ends
  rw [choose_run]
  exact ends_mono _ store _ _ _ _ (advance_choose_from book store.steps store coherent f g h)
    (fun _ _ known => known)
    (fun _ _ known => ⟨known.1, known.2 (within_steps store coherent.sound [f, g, h])⟩)

theorem replays_choose (book : Book) (store : Store) (coherent : store.Coherent book) (f g h r : Ref)
    (live : ∀ a ∈ [f, g, h], store.Live a) (settled : store.Chooses f g h r) :
    Replays book (choose f g h) store r := by
  unfold Replays
  rw [choose_run]
  exact replays_choose_from book store.steps store coherent f g h r
    (within_steps store coherent.sound [f, g, h]) live settled

theorem bare_choose (book : Book) (left right : Store) (stores : left.bare = right.bare)
    (leftCoherent : left.Coherent book) (rightCoherent : right.Coherent book) (f g h : Ref) :
    bare (choose f g h left) = bare (choose f g h right) := by
  rw [choose_run, choose_run, ← bare_blind steps (fun _ => rfl) left right stores]
  exact bare_choose_from book left.steps left right stores leftCoherent rightCoherent f g h
    (within_steps left leftCoherent.sound [f, g, h])

end Action
end DomainDiagram
