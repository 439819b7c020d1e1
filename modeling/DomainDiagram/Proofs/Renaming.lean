import DomainDiagram.Proofs.Choosing

set_option autoImplicit false

namespace DomainDiagram

namespace Store

inductive Maps (store : Store) (image : Var → Var) : Ref → Prop where
  | terminal (f : Ref) (small : f ≤ 1) : Maps store image f
  | decision (f : Ref) (node : Node) (tests : store.Tests f node) (positive : 0 < image node.var)
      (bound : image node.var ≤ store.numVars) (lowHalf : Maps store image node.low)
      (highHalf : Maps store image node.high) : Maps store image f

theorem maps_extends (old new : Store) (grown : Extends old new) (image : Var → Var) (f : Ref)
    (maps : old.Maps image f) : new.Maps image f := by
  induction maps with
  | terminal f small => exact .terminal f small
  | decision f node tests positive bound _ _ lowIH highIH =>
      exact .decision f node (grown.kept f node tests) positive (Nat.le_trans bound grown.vars) lowIH highIH

theorem maps_node (store : Store) (image : Var → Var) (f : Ref) (node : Node) (tests : store.Tests f node)
    (maps : store.Maps image f) :
    (0 < image node.var ∧ image node.var ≤ store.numVars) ∧ store.Maps image node.low ∧
      store.Maps image node.high := by
  cases maps with
  | terminal _ small => exact absurd tests.1 (Nat.not_le_of_lt (Nat.lt_succ_of_le small))
  | decision _ other otherTests positive bound lowHalf highHalf =>
      obtain rfl := tests_node_unique store f node other tests otherTests
      exact ⟨⟨positive, bound⟩, lowHalf, highHalf⟩

end Store

namespace Action

open Store

theorem literal_true (v : Var) : literal v true = branch v 0 1 := if_pos rfl

theorem literal_false (v : Var) : literal v false = branch v 1 0 := if_neg Bool.false_ne_true

theorem rename_from_terminal (names : Renaming) (steps : Nat) (f : Ref) (small : f ≤ 1) :
    renameFrom names (steps + 1) f = pure f := by
  simp [renameFrom, small]

theorem advance_retest (book : Book) (store : Store) (coherent : store.Coherent book) (v : Var)
    (low high : Ref) (lowLive : store.Live low) (highLive : store.Live high) :
    Ends (do let test ← literal v true; choose test high low) store
      (fun r next => Advances book store next ∧
        ∃ test, next.Tests test ⟨v, 0, 1⟩ ∧ next.Chooses test high low r)
      (fun _ next => Advances book store next ∧ ¬ (0 < v ∧ v ≤ store.numVars)) := by
  rw [literal_true]
  refine ends_bind _ _ store (fun test middle => Advances book store middle ∧ middle.Made v 0 1 test) _ _ ?_ ?_
  · refine ends_mono _ store _ _ _ _ (advance_branch book store coherent v 0 1) (fun _ _ known => known) ?_
    rintro fault middle ⟨advanced, refused⟩
    refine ⟨advanced, fun allocated => refused ⟨allocated.1, allocated.2, ?_, ?_⟩⟩
    · exact .inl (Nat.zero_le 1)
    · exact .inl (Nat.le_refl 1)
  · rintro test middle ⟨advanced, made⟩
    have tests : middle.Tests test ⟨v, 0, 1⟩ := by
      rcases made with ⟨same, _⟩ | ⟨_, tests⟩
      · exact absurd same (by decide)
      · exact tests
    have grown := advances_extends book store middle advanced
    refine ends_mono _ middle _ _ _ _ (advance_choose book middle advanced.coherent test high low) ?_ ?_
    · rintro r final ⟨further, chosen⟩
      exact ⟨advances_trans book store middle final advanced further, test,
        (advances_extends book middle final further).kept test _ tests, chosen⟩
    · rintro fault final ⟨_, refused⟩
      have testLive : middle.Live test := .inr ⟨_, tests⟩
      have highKept := extends_live store middle grown high highLive
      have lowKept := extends_live store middle grown low lowLive
      exact absurd (by simp [testLive, highKept, lowKept]) refused

theorem advance_rename_from (book : Book) (names : Renaming) (named : book names.id = some names.image)
    (steps : Nat) (store : Store) (coherent : store.Coherent book) (f : Ref) :
    Ends (renameFrom names steps f) store
      (fun r next => Advances book store next ∧ next.Renames names.image f r)
      (fun _ next => Advances book store next ∧
        (store.Within steps [f] → ¬ store.Maps names.image f)) := by
  induction steps generalizing store f with
  | zero => exact ⟨advances_refl book store coherent, fun within => absurd within (within_none store _)⟩
  | succ steps ih =>
      rcases Ref.terminal_or f with small | large
      · rw [rename_from_terminal names steps f small]
        exact ⟨advances_refl book store coherent, .terminal f small⟩
      simp only [renameFrom, Ref.terminal_false f large, Bool.false_eq_true, if_false]
      refine advance_memoized book _ _ store coherent (fun r later => later.Renames names.image f r) _ ?_ ?_
      · rintro r later _ ⟨image, other, settled⟩
        obtain rfl := Option.some.inj (named.symm.trans other)
        exact settled
      intro next only nextCoherent
      have start := advances_refl book next nextCoherent
      have reached := builds_extends store next (only_memo_builds store next only)
      refine ends_look _ _ next _ _ (fun node read => ?_) fun fault failed => ⟨start, fun _ maps => ?_⟩
      · have tests := node_live next f large node read
        obtain ⟨lowBelow, highBelow⟩ := nextCoherent.sound.ordered f node tests
        have mapped : store.Maps names.image f → (0 < names.image node.var ∧
            names.image node.var ≤ next.numVars) ∧ next.Maps names.image node.low ∧
              next.Maps names.image node.high :=
          fun maps => maps_node next names.image f node tests (maps_extends store next reached names.image f maps)
        have descend : ∀ later, Advances book next later → ∀ a, next.Below node.var a →
            (store.Maps names.image f → next.Maps names.image a) →
            (later.Within steps [a] → ¬ later.Maps names.image a) →
            store.Within (steps + 1) [f] → ¬ store.Maps names.image f := by
          intro later advanced a below part refused within maps
          have nextWithin := within_same store next (only_memo_bare store next only) _ _ within
          have fewer := within_half book next next later (only_memo_refl next) advanced steps f a node
            (.inr ⟨node, tests⟩) tests below nextWithin
          exact refused fewer.1
            (maps_extends next later (advances_extends book next later advanced) names.image a (part maps))
        refine ends_both book _ _
          (fun low high => do let test ← literal (names.image node.var) true; choose test high low) next
          (fun r later => later.Renames names.image node.low r)
          (fun r later => later.Renames names.image node.high r) _ _ _ _ _
          (fun r old new grown => renames_extends old new grown names.image node.low r)
          (ih next nextCoherent node.low) (fun later advanced => ih later advanced.coherent node.high)
          (descend next start node.low lowBelow fun maps => (mapped maps).2.1)
          (fun later advanced => descend later advanced node.high highBelow fun maps => (mapped maps).2.2)
          (fun fault later advanced fails => ⟨advanced, fails⟩) ?_
        intro low high later advanced lowHalf highHalf
        have lowLive := renames_result later advanced.coherent.sound names.image node.low low lowHalf
        have highLive := renames_result later advanced.coherent.sound names.image node.high high highHalf
        refine ends_mono _ later _ _ _ _ (advance_retest book later advanced.coherent (names.image node.var)
          low high lowLive highLive) ?_ ?_
        · rintro r final ⟨further, test, literal, chosen⟩
          have last := advances_extends book later final further
          have whole := advances_trans book next later final advanced further
          have finalTests := (advances_extends book next final whole).kept f node tests
          refine ⟨whole, by simpa [OpKey.operands] using .inr ⟨node, finalTests⟩, names.image, named, ?_⟩
          exact .decision f r node low high test finalTests
            (renames_extends later final last names.image node.low low lowHalf)
            (renames_extends later final last names.image node.high high highHalf) literal chosen
        · rintro fault final ⟨further, refused⟩
          refine ⟨advances_trans book next later final advanced further, fun _ maps => refused ?_⟩
          rw [advanced.built.vars]
          exact (mapped maps).1
      · cases maps with
        | terminal _ small => exact absurd large (Nat.not_le_of_lt (Nat.lt_succ_of_le small))
        | decision _ node tests =>
            have reading := node_tests next f node (reached.kept f node tests)
            rw [reading] at failed
            cases failed

theorem replays_rename_from (book : Book) (names : Renaming) (named : book names.id = some names.image)
    (steps : Nat) (store : Store) (coherent : store.Coherent book) (f r : Ref)
    (within : store.Within steps [f]) (settled : store.Renames names.image f r) :
    Replays book (renameFrom names steps f) store r := by
  induction steps generalizing store f r with
  | zero => exact absurd within (within_none store _)
  | succ steps ih =>
      cases settled with
      | terminal _ small =>
          rw [rename_from_terminal names steps f small]
          exact replays_pure book store coherent f
      | decision _ _ node low high test tests lowHalf highHalf literal chosen =>
          obtain ⟨lowBelow, highBelow⟩ := coherent.sound.ordered f node tests
          have half : ∀ later, OnlyMemo store later → later.Coherent book → ∀ a b, store.Below node.var a →
              store.Renames names.image a b → Replays book (renameFrom names steps a) later b := by
            intro later only laterCoherent a b below halfSettled
            have built := only_memo_builds store later only
            have fewer := within_half book store store later (only_memo_refl store) ⟨built, laterCoherent⟩ steps
              f a node (.inr ⟨node, tests⟩) tests below within
            exact ih later laterCoherent a b fewer.1
              (renames_extends store later (builds_extends store later built) names.image a b halfSettled)
          simp only [renameFrom, Ref.terminal_false f tests.1, Bool.false_eq_true, if_false, literal_true]
          refine replays_memoized book _ _ store coherent r (by simpa [OpKey.operands] using .inr ⟨node, tests⟩)
            ⟨names.image, named, .decision f r node low high test tests lowHalf highHalf literal chosen⟩ ?_
          intro next only nextCoherent
          have grown := builds_extends store next (only_memo_builds store next only)
          refine replays_look book _ _ next node r (node_tests next f node (grown.kept f node tests)) ?_
          refine replays_bind book _ _ next low r (half next only nextCoherent node.low low lowBelow lowHalf) ?_
          intro middle toMiddle middleCoherent
          have onlyMiddle := only_memo_trans store next middle only toMiddle
          refine replays_bind book _ _ middle high r
            (half middle onlyMiddle middleCoherent node.high high highBelow highHalf) ?_
          intro later toLater laterCoherent
          have onlyLater := only_memo_trans store middle later onlyMiddle toLater
          have grown := builds_extends store later (only_memo_builds store later onlyLater)
          have laterLiteral := grown.kept test _ literal
          obtain ⟨positive, bound⟩ := laterCoherent.sound.allocated test _ laterLiteral
          refine replays_bind book _ _ later test r (replays_branch book later laterCoherent _ 0 1 test positive bound
            (.inr ⟨by decide, laterLiteral⟩)) ?_
          intro final toFinal finalCoherent
          have onlyFinal := only_memo_trans store later final onlyLater toFinal
          have grown := builds_extends store final (only_memo_builds store final onlyFinal)
          have testLive : final.Live test := .inr ⟨_, grown.kept test _ literal⟩
          have lowLive := extends_live store final grown low
            (renames_result store coherent.sound names.image node.low low lowHalf)
          have highLive := extends_live store final grown high
            (renames_result store coherent.sound names.image node.high high highHalf)
          exact replays_choose book final finalCoherent test high low r (by simp [testLive, lowLive, highLive])
            (chooses_extends store final grown test high low r chosen)

theorem grows_rename_from (book : Book) (names : Renaming) (named : book names.id = some names.image)
    (steps : Nat) (f : Ref) : Grows book (renameFrom names steps f) :=
  ends_grows book _ (fun _ r next => next.Renames names.image f r)
    (fun store => store.Within steps [f] → ¬ store.Maps names.image f)
    fun store coherent => advance_rename_from book names named steps store coherent f

theorem bare_retest (book : Book) (left right : Store) (stores : left.bare = right.bare)
    (leftCoherent : left.Coherent book) (rightCoherent : right.Coherent book) (v : Var) (low high : Ref) :
    bare ((do let test ← literal v true; choose test high low : Action Ref) left) =
      bare ((do let test ← literal v true; choose test high low : Action Ref) right) := by
  rw [literal_true]
  refine bare_bind _ _ left right (bare_branch left right stores v 0 1) ?_
  intro test a b leftTest rightTest alike
  have leftKnown := ends_ok _ left a test _ _ (advance_branch book left leftCoherent v 0 1) leftTest
  have rightKnown := ends_ok _ right b test _ _ (advance_branch book right rightCoherent v 0 1) rightTest
  exact bare_choose book a b alike leftKnown.1.coherent rightKnown.1.coherent test high low

theorem bare_rename_from (book : Book) (names : Renaming) (named : book names.id = some names.image)
    (steps : Nat) (left right : Store) (stores : left.bare = right.bare)
    (leftCoherent : left.Coherent book) (rightCoherent : right.Coherent book) (f : Ref)
    (within : left.Within steps [f]) :
    bare (renameFrom names steps f left) = bare (renameFrom names steps f right) := by
  induction steps generalizing left right f with
  | zero => exact absurd within (within_none left _)
  | succ steps ih =>
      rcases Ref.terminal_or f with small | large
      · rw [rename_from_terminal names steps f small]
        exact congrArg (EStateM.Result.ok f) stores
      have replay : ∀ r store, left.bare = store.bare → store.Coherent book →
          store.Settled book (.rename f names.id) r →
          (∀ h ∈ (OpKey.rename f names.id).operands, store.Live h) →
          Replays book (renameFrom names (steps + 1) f) store r := by
        rintro r store alike coherent ⟨image, other, settled⟩ _
        obtain rfl := Option.some.inj (named.symm.trans other)
        exact replays_rename_from book names named (steps + 1) store coherent f r
          (within_same left store alike _ _ within) settled
      simp only [renameFrom, Ref.terminal_false f large, Bool.false_eq_true, if_false] at replay ⊢
      exact bare_by_children book _ f (renameFrom names steps)
        (fun node low high => do
          let test ← literal ((names.get? node.var).getD node.var) true
          choose test high low)
        steps large left right stores leftCoherent rightCoherent within replay
        (grows_rename_from book names named steps) ih
        fun node low high a b same aCoherent bCoherent => bare_retest book a b same aCoherent bCoherent _ low high

theorem rename_empty (names : Renaming) (f : Ref) (empty : names.isEmpty = true) :
    rename names f = pure f := if_pos empty

theorem rename_run (names : Renaming) (f : Ref) (store : Store) (filled : names.isEmpty = false) :
    rename names f store = renameFrom names store.steps f store := by
  rw [rename, if_neg (by rw [filled]; exact Bool.false_ne_true)]
  rfl

theorem advance_rename (book : Book) (names : Renaming) (named : book names.id = some names.image)
    (store : Store) (coherent : store.Coherent book) (f : Ref) (filled : names.isEmpty = false) :
    Ends (rename names f) store (fun r next => Advances book store next ∧ next.Renames names.image f r)
      (fun _ next => Advances book store next ∧ ¬ store.Maps names.image f) := by
  unfold Ends
  rw [rename_run names f store filled]
  exact ends_mono _ store _ _ _ _ (advance_rename_from book names named store.steps store coherent f)
    (fun _ _ known => known)
    (fun _ _ known => ⟨known.1, known.2 (within_steps store coherent.sound [f])⟩)

theorem bare_rename (book : Book) (names : Renaming) (named : book names.id = some names.image)
    (left right : Store) (stores : left.bare = right.bare) (leftCoherent : left.Coherent book)
    (rightCoherent : right.Coherent book) (f : Ref) :
    bare (rename names f left) = bare (rename names f right) := by
  cases empty : names.isEmpty with
  | true =>
      rw [rename_empty names f empty]
      exact congrArg (EStateM.Result.ok f) stores
  | false =>
      rw [rename_run names f left empty, rename_run names f right empty,
        ← bare_blind steps (fun _ => rfl) left right stores]
      exact bare_rename_from book names named left.steps left right stores leftCoherent rightCoherent f
        (within_steps left leftCoherent.sound [f])

end Action
end DomainDiagram
