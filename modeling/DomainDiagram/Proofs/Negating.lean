import DomainDiagram.Proofs.Branching

set_option autoImplicit false

namespace DomainDiagram

namespace Store

theorem node_failed (store : Store) (f : Ref) (large : 2 ≤ f) (fault : Fault)
    (failed : store.node f = .error fault) : ¬ store.Live f := by
  rintro (small | ⟨node, tests⟩)
  · exact absurd large (Nat.not_le_of_lt (Nat.lt_succ_of_le small))
  · rw [node_tests store f node tests] at failed
    exact nomatch failed

theorem within_half (book : Book) (store next later : Store) (only : OnlyMemo store next)
    (advanced : Advances book next later) (steps : Nat) (f a : Ref) (node : Node) (live : store.Live f)
    (tests : next.Tests f node) (below : next.Below node.var a) (within : store.Within (steps + 1) [f]) :
    later.Within steps [a] ∧ later.Live a := by
  have heads : next.Heads node.var f := ⟨node.low, node.high, tests⟩
  simpa using within_deeper book store next later only advanced steps [f] [a] node.var (by simpa using live)
    (by simpa using heads) (by simpa using below) within

theorem refuses_half (book : Book) (store next later : Store) (only : OnlyMemo store next)
    (advanced : Advances book next later) (steps : Nat) (f a : Ref) (node : Node)
    (tests : next.Tests f node) (below : next.Below node.var a) (refused : later.Refuses steps [a]) :
    store.Refuses (steps + 1) [f] := by
  have heads : next.Heads node.var f := ⟨node.low, node.high, tests⟩
  exact refuses_deeper book store next later only advanced steps [f] [a] node.var (by simpa using heads)
    (by simpa using below) refused

end Store

namespace Action

open Store

theorem negate_from_terminal (steps : Nat) (f : Ref) (small : f ≤ 1) :
    negateFrom (steps + 1) f = pure (Ref.constant f.isZero) := by
  simp [negateFrom, small]

theorem advance_negate_from (book : Book) (steps : Nat) (store : Store) (coherent : store.Coherent book)
    (f : Ref) :
    Ends (negateFrom steps f) store (fun r next => Advances book store next ∧ next.Negates f r)
      (fun _ next => Advances book store next ∧ store.Refuses steps [f]) := by
  induction steps generalizing store f with
  | zero => exact ⟨advances_refl book store coherent, refuses_none store _⟩
  | succ steps ih =>
      rcases Ref.terminal_or f with small | large
      · rw [negate_from_terminal steps f small]
        exact ⟨advances_refl book store coherent, .terminal f small⟩
      · simp only [negateFrom, Ref.terminal_false f large, Bool.false_eq_true, if_false]
        refine advance_memoized book _ _ store coherent _ _ (fun r later _ settled => settled) ?_
        intro next only nextCoherent
        have start := advances_refl book next nextCoherent
        have built := only_memo_builds store next only
        have reached := builds_extends store next built
        refine ends_look _ _ next _ _ (fun node read => ?_) fun fault failed =>
          ⟨start, refuses_dead store _ _ f (by simp) fun live =>
            node_failed next f large fault failed (extends_live store next reached f live)⟩
        have tests := node_live next f large node read
        obtain ⟨positive, bound⟩ := nextCoherent.sound.allocated f node tests
        obtain ⟨lowBelow, highBelow⟩ := nextCoherent.sound.ordered f node tests
        have keep : ∀ later, Advances book next later → ∀ a, next.Below node.var a →
            later.Below node.var a := fun later advanced =>
          extends_below next later (advances_extends book next later advanced) _
        refine advance_halves book _ _ next node.var (fun r later => later.Negates node.low r)
          (fun r later => later.Negates node.high r) _ _ _ _ positive bound
          (fun r old new grown => negates_extends old new grown node.low r)
          (fun r old new grown => negates_extends old new grown node.high r)
          (ih next nextCoherent node.low) (fun later advanced => ih later advanced.coherent node.high)
          (refuses_half book store next next only start steps f node.low node tests lowBelow)
          (fun later advanced =>
            refuses_half book store next later only advanced steps f node.high node tests highBelow)
          (fun r later advanced => negates_below later advanced.coherent.sound _ node.low r
            (keep later advanced node.low lowBelow))
          (fun r later advanced => negates_below later advanced.coherent.sound _ node.high r
            (keep later advanced node.high highBelow)) ?_
        intro low high r later grown lowHalf highHalf made
        have laterTests := grown.kept f node tests
        exact ⟨by simpa [OpKey.operands] using .inr ⟨node, laterTests⟩,
          .decision f r node low high laterTests lowHalf highHalf made⟩

theorem replays_negate_from (book : Book) (steps : Nat) (store : Store) (coherent : store.Coherent book)
    (f r : Ref) (within : store.Within steps [f]) (settled : store.Negates f r) :
    Replays book (negateFrom steps f) store r := by
  induction steps generalizing store f r with
  | zero => exact absurd within (within_none store _)
  | succ steps ih =>
      cases settled with
      | terminal _ small =>
          rw [negate_from_terminal steps f small]
          exact replays_pure book store coherent _
      | decision _ _ node low high tests lowHalf highHalf made =>
          obtain ⟨positive, bound⟩ := coherent.sound.allocated f node tests
          obtain ⟨lowBelow, highBelow⟩ := coherent.sound.ordered f node tests
          have half : ∀ later, OnlyMemo store later → later.Coherent book → ∀ a b,
              store.Below node.var a → store.Negates a b → Replays book (negateFrom steps a) later b := by
            intro later only laterCoherent a b below halfSettled
            have built := only_memo_builds store later only
            have fewer := within_half book store store later (only_memo_refl store) ⟨built, laterCoherent⟩ steps
              f a node (.inr ⟨node, tests⟩) tests below within
            exact ih later laterCoherent a b fewer.1
              (negates_extends store later (builds_extends store later built) a b halfSettled)
          simp only [negateFrom, Ref.terminal_false f tests.1, Bool.false_eq_true, if_false]
          refine replays_memoized book _ _ store coherent r (by simpa [OpKey.operands] using .inr ⟨node, tests⟩)
            (.decision f r node low high tests lowHalf highHalf made) ?_
          intro next only nextCoherent
          have built := only_memo_builds store next only
          have grown := builds_extends store next built
          refine replays_look book _ _ next node r (node_tests next f node (grown.kept f node tests)) ?_
          exact replays_halves book _ _ next _ low high r positive (built.vars ▸ bound)
            (made_extends store next grown _ low high r made)
            (half next only nextCoherent node.low low lowBelow lowHalf)
            (fun later further laterCoherent => half later (only_memo_trans _ _ _ only further) laterCoherent
              node.high high highBelow highHalf)

theorem grows_negate_from (book : Book) (steps : Nat) (f : Ref) : Grows book (negateFrom steps f) :=
  ends_grows book _ (fun _ r next => next.Negates f r) (fun store => store.Refuses steps [f])
    fun store coherent => advance_negate_from book steps store coherent f

-- Both children of a decision are worked out, and what comes of them is joined
-- and remembered.
def byChildren (key : OpKey) (f : Ref) (act : Ref → Action Ref) (join : Node → Ref → Ref → Action Ref) : Action Ref :=
  memoized key do
    let node ← inspect (·.node f)
    let low ← act node.low
    let high ← act node.high
    join node low high

theorem bare_by_children (book : Book) (key : OpKey) (f : Ref) (act : Ref → Action Ref)
    (join : Node → Ref → Ref → Action Ref) (steps : Nat) (large : 2 ≤ f) (left right : Store)
    (stores : left.bare = right.bare) (leftCoherent : left.Coherent book) (rightCoherent : right.Coherent book)
    (within : left.Within (steps + 1) [f])
    (replay : ∀ r store, left.bare = store.bare → store.Coherent book → store.Settled book key r →
      (∀ h ∈ key.operands, store.Live h) → Replays book (byChildren key f act join) store r)
    (grows : ∀ g, Grows book (act g))
    (half : ∀ a b : Store, a.bare = b.bare → a.Coherent book → b.Coherent book →
      ∀ g, a.Within steps [g] → bare (act g a) = bare (act g b))
    (last : ∀ node low high (a b : Store), a.bare = b.bare → a.Coherent book → b.Coherent book →
      bare (join node low high a) = bare (join node low high b)) :
    bare (byChildren key f act join left) = bare (byChildren key f act join right) := by
  refine bare_memoized book _ _ left right stores leftCoherent rightCoherent replay ?_
  intro a b leftOnly rightOnly aCoherent bCoherent
  have same : a.bare = b.bare :=
    (only_memo_bare left a leftOnly).symm.trans (stores.trans (only_memo_bare right b rightOnly))
  refine bare_look _ _ a b same (bare_blind (·.node f) (fun _ => rfl) a b same) fun node read => ?_
  have tests := node_live a f large node read
  obtain ⟨lowBelow, highBelow⟩ := aCoherent.sound.ordered f node tests
  have fits : ∀ later, Advances book a later → ∀ p, a.Below node.var p → later.Within steps [p] :=
    fun later advanced p below => (within_half book a a later (only_memo_refl a) advanced steps f p node
      (.inr ⟨node, tests⟩) tests below (within_same left a (only_memo_bare left a leftOnly) _ _ within)).1
  refine bare_both book _ _ _ a b aCoherent bCoherent (grows node.low) (grows node.high) ?_
    (fun c d leftDone rightDone alike => ?_)
    (fun low high c d leftDone rightDone alike =>
      last node low high c d alike leftDone.coherent rightDone.coherent)
  · exact half a b same aCoherent bCoherent node.low (fits a (advances_refl book a aCoherent) node.low lowBelow)
  · exact half c d alike leftDone.coherent rightDone.coherent node.high (fits c leftDone node.high highBelow)

theorem bare_negate_from (book : Book) (steps : Nat) (left right : Store)
    (stores : left.bare = right.bare) (leftCoherent : left.Coherent book)
    (rightCoherent : right.Coherent book) (f : Ref) (within : left.Within steps [f]) :
    bare (negateFrom steps f left) = bare (negateFrom steps f right) := by
  induction steps generalizing left right f with
  | zero => exact absurd within (within_none left _)
  | succ steps ih =>
      rcases Ref.terminal_or f with small | large
      · rw [negate_from_terminal steps f small]
        exact congrArg (EStateM.Result.ok _) stores
      · have replay : ∀ r store, left.bare = store.bare → store.Coherent book →
            store.Settled book (.negate f) r → (∀ h ∈ (OpKey.negate f).operands, store.Live h) →
            Replays book (negateFrom (steps + 1) f) store r := by
          intro r store alike coherent settled _
          exact replays_negate_from book (steps + 1) store coherent f r
            (within_same left store alike _ _ within) settled
        simp only [negateFrom, Ref.terminal_false f large, Bool.false_eq_true, if_false] at replay ⊢
        exact bare_by_children book _ f (negateFrom steps) (fun node low high => branch node.var low high) steps large
          left right stores leftCoherent rightCoherent within replay (grows_negate_from book steps) ih
          fun node low high a b same _ _ => bare_branch a b same node.var low high

theorem negate_run (f : Ref) (store : Store) : negate f store = negateFrom store.steps f store := rfl

theorem advance_negate (book : Book) (store : Store) (coherent : store.Coherent book) (f : Ref) :
    Ends (negate f) store (fun r next => Advances book store next ∧ next.Negates f r)
      (fun _ next => Advances book store next ∧ ¬ ∀ h ∈ [f], store.Live h) := by
  unfold Ends
  rw [negate_run]
  exact ends_mono _ store _ _ _ _ (advance_negate_from book store.steps store coherent f)
    (fun _ _ known => known)
    (fun _ _ known => ⟨known.1, known.2 (within_steps store coherent.sound [f])⟩)

theorem replays_negate (book : Book) (store : Store) (coherent : store.Coherent book) (f r : Ref)
    (settled : store.Negates f r) : Replays book (negate f) store r := by
  unfold Replays
  rw [negate_run]
  exact replays_negate_from book store.steps store coherent f r (within_steps store coherent.sound [f]) settled

theorem bare_negate (book : Book) (left right : Store) (stores : left.bare = right.bare)
    (leftCoherent : left.Coherent book) (rightCoherent : right.Coherent book) (f : Ref) :
    bare (negate f left) = bare (negate f right) := by
  rw [negate_run, negate_run, ← bare_blind steps (fun _ => rfl) left right stores]
  exact bare_negate_from book left.steps left right stores leftCoherent rightCoherent f
    (within_steps left leftCoherent.sound [f])

end Action
end DomainDiagram
