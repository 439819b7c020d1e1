import DomainDiagram.Proofs.Choosing

set_option autoImplicit false

namespace DomainDiagram

namespace Store

theorem drop_trims (store : Store) (sound : store.Sound) (v : Var) (set rest : Ref)
    (read : store.dropAbove v set = .ok rest) : store.Live set ∧ store.Trims v set rest := by
  by_cases live : store.Live set
  · obtain ⟨other, again, trims⟩ := trims_ok store sound v set live
    rw [read] at again
    exact ⟨live, Except.ok.inj again ▸ trims⟩
  · obtain ⟨fault, failed⟩ := drop_dead store v set live
    rw [read] at failed
    exact nomatch failed

theorem drop_bare_from (store : Store) (v : Var) (steps : Nat) (set : Ref) :
    store.bare.dropAboveFrom v steps set = store.dropAboveFrom v steps set := by
  induction steps generalizing set with
  | zero => rfl
  | succ steps ih => simp only [dropAboveFrom, node_bare, ih]

@[simp] theorem drop_bare (store : Store) (v : Var) (set : Ref) :
    store.bare.dropAbove v set = store.dropAbove v set := drop_bare_from store v store.steps set

end Store

namespace Action

open Store

theorem quantify_from_terminal (q : Quantifier) (steps : Nat) (f set : Ref) (small : f ≤ 1) :
    quantifyFrom q (steps + 1) f set = pure f := by
  simp [quantifyFrom, small]

theorem quantify_from_failed (q : Quantifier) (steps : Nat) (store : Store) (f set : Ref) (large : 2 ≤ f)
    (fault : Fault) (failed : store.node f = .error fault) :
    quantifyFrom q (steps + 1) f set store = .error fault store := by
  simp only [quantifyFrom, Ref.terminal_false f large, Bool.false_eq_true, if_false, bind, EStateM.bind,
    inspect, failed]

theorem quantify_from_dead (q : Quantifier) (steps : Nat) (store : Store) (f set : Ref) (node : Node)
    (tests : store.Tests f node) (fault : Fault) (failed : store.dropAbove node.var set = .error fault) :
    quantifyFrom q (steps + 1) f set store = .error fault store := by
  simp only [quantifyFrom, Ref.terminal_false f tests.1, Bool.false_eq_true, if_false, bind, EStateM.bind,
    inspect, node_tests store f node tests, failed]

theorem quantify_from_untouched (q : Quantifier) (steps : Nat) (store : Store) (f set rest : Ref)
    (node : Node) (tests : store.Tests f node) (read : store.dropAbove node.var set = .ok rest)
    (small : rest ≤ 1) : quantifyFrom q (steps + 1) f set store = .ok f store := by
  simp only [quantifyFrom, Ref.terminal_false f tests.1, Bool.false_eq_true, if_false, bind, EStateM.bind,
    inspect, node_tests store f node tests, read, Ref.terminal_true rest small, if_true]
  rfl

-- What is worked out when the set has members from the variable of the node
-- on down, of which head is the first.
def quantifyHalves (q : Quantifier) (steps : Nat) (node : Node) (set : Ref) (head : Node) : Action Ref :=
  if head.var = node.var then do
    let low ← quantifyFrom q steps node.low head.high
    let high ← quantifyFrom q steps node.high head.high
    combine q.connective low high
  else do
    let low ← quantifyFrom q steps node.low set
    let high ← quantifyFrom q steps node.high set
    branch node.var low high

theorem quantify_from_memoized (q : Quantifier) (steps : Nat) (store : Store) (f set rest : Ref)
    (node : Node) (tests : store.Tests f node) (read : store.dropAbove node.var set = .ok rest)
    (large : 2 ≤ rest) : quantifyFrom q (steps + 1) f set store =
      memoized (.quantify q f rest) (do
        let head ← inspect (·.node rest)
        quantifyHalves q steps node rest head) store := by
  simp only [quantifyFrom, Ref.terminal_false f tests.1, Bool.false_eq_true, if_false, bind, EStateM.bind,
    inspect, node_tests store f node tests, read, Ref.terminal_false rest large]
  rfl

def QuantifiesWithin (book : Book) (q : Quantifier) (steps : Nat) : Prop :=
  ∀ store : Store, store.Coherent book → ∀ f set, Ends (quantifyFrom q steps f set) store
    (fun r next => Advances book store next ∧ next.Quantifies q f set r)
    (fun _ next => Advances book store next ∧
      (store.Within steps [f] → ¬ ∀ h ∈ [f, set], store.Live h))

theorem half_refused (book : Book) (store later : Store) (advanced : Advances book store later)
    (steps : Nat) (f a set : Ref) (node : Node) (tests : store.Tests f node) (below : store.Below node.var a)
    (live : store.Live set) (refused : later.Within steps [a] → ¬ ∀ h ∈ [a, set], later.Live h) :
    ¬ store.Within (steps + 1) [f] := by
  intro within
  obtain ⟨fewer, inside⟩ := within_half book store store later (only_memo_refl store) advanced steps f a node
    (.inr ⟨node, tests⟩) tests below within
  have still := extends_live store later (advances_extends book store later advanced) set live
  exact refused fewer (by simp [inside, still])

theorem advance_member (book : Book) (q : Quantifier) (steps : Nat) (known : QuantifiesWithin book q steps)
    (store : Store) (coherent : store.Coherent book) (f set : Ref) (node head : Node)
    (tests : store.Tests f node) (trims : store.Trims node.var set set) (setTests : store.Tests set head)
    (same : head.var = node.var) :
    Ends (do
        let low ← quantifyFrom q steps node.low head.high
        let high ← quantifyFrom q steps node.high head.high
        combine q.connective low high) store
      (fun r next => Advances book store next ∧ next.Quantifies q f set r)
      (fun _ next => Advances book store next ∧ ¬ store.Within (steps + 1) [f]) := by
  obtain ⟨lowBelow, highBelow⟩ := coherent.sound.ordered f node tests
  have tail := high_live store coherent.sound set head setTests
  refine ends_both book _ _ (combine q.connective) store
    (fun r later => later.Quantifies q node.low head.high r)
    (fun r later => later.Quantifies q node.high head.high r) _ _ _ _ _
    (fun r old new grown => quantifies_extends old new grown q node.low head.high r)
    (known store coherent node.low head.high)
    (fun later advanced => known later advanced.coherent node.high head.high)
    (half_refused book store store (advances_refl book store coherent) steps f node.low head.high node tests
      lowBelow tail)
    (fun later advanced => half_refused book store later advanced steps f node.high head.high node tests
      highBelow tail)
    (fun fault later advanced fails => ⟨advanced, fails⟩) ?_
  intro low high later advanced lowHalf highHalf
  have grown := advances_extends book store later advanced
  have lowLive := below_live later _ low (quantifies_below later advanced.coherent.sound q node.var node.low
    head.high low (extends_below store later grown _ node.low lowBelow) lowHalf)
  have highLive := below_live later _ high (quantifies_below later advanced.coherent.sound q node.var node.high
    head.high high (extends_below store later grown _ node.high highBelow) highHalf)
  refine ends_mono _ later _ _ _ _ (advance_combine book q.connective later advanced.coherent low high) ?_ ?_
  · rintro r final ⟨further, joined⟩
    have whole := advances_trans book store later final advanced further
    have grown := advances_extends book store final whole
    have last := advances_extends book later final further
    exact ⟨whole, .member f set r node set head low high (grown.kept f node tests)
      (trims_extends store final grown node.var set set trims) (grown.kept set head setTests) same
      (quantifies_extends later final last q node.low head.high low lowHalf)
      (quantifies_extends later final last q node.high head.high high highHalf) joined⟩
  · rintro fault final ⟨_, refused⟩
    exact absurd (by simp [lowLive, highLive]) refused

theorem advance_skipped (book : Book) (q : Quantifier) (steps : Nat) (known : QuantifiesWithin book q steps)
    (store : Store) (coherent : store.Coherent book) (f set : Ref) (node head : Node)
    (tests : store.Tests f node) (trims : store.Trims node.var set set) (setTests : store.Tests set head)
    (other : head.var ≠ node.var) :
    Ends (do
        let low ← quantifyFrom q steps node.low set
        let high ← quantifyFrom q steps node.high set
        branch node.var low high) store
      (fun r next => Advances book store next ∧ next.Quantifies q f set r)
      (fun _ next => Advances book store next ∧ ¬ store.Within (steps + 1) [f]) := by
  obtain ⟨positive, bound⟩ := coherent.sound.allocated f node tests
  obtain ⟨lowBelow, highBelow⟩ := coherent.sound.ordered f node tests
  have tail : store.Live set := .inr ⟨head, setTests⟩
  have keep : ∀ later, Advances book store later → ∀ a, store.Below node.var a → later.Below node.var a :=
    fun later advanced => extends_below store later (advances_extends book store later advanced) _
  refine advance_halves book _ _ store node.var (fun r later => later.Quantifies q node.low set r)
    (fun r later => later.Quantifies q node.high set r) _ _ _ _ positive bound
    (fun r old new grown => quantifies_extends old new grown q node.low set r)
    (fun r old new grown => quantifies_extends old new grown q node.high set r)
    (known store coherent node.low set) (fun later advanced => known later advanced.coherent node.high set)
    (half_refused book store store (advances_refl book store coherent) steps f node.low set node tests lowBelow
      tail)
    (fun later advanced => half_refused book store later advanced steps f node.high set node tests highBelow
      tail)
    (fun r later advanced => quantifies_below later advanced.coherent.sound q _ node.low set r
      (keep later advanced node.low lowBelow))
    (fun r later advanced => quantifies_below later advanced.coherent.sound q _ node.high set r
      (keep later advanced node.high highBelow)) ?_
  intro low high r later grown lowHalf highHalf made
  exact .skipped f set r node set head low high (grown.kept f node tests)
    (trims_extends store later grown node.var set set trims) (grown.kept set head setTests) other lowHalf
    highHalf made

theorem advance_quantify_from (book : Book) (q : Quantifier) (steps : Nat) :
    QuantifiesWithin book q steps := by
  induction steps with
  | zero =>
      intro store coherent f set
      exact ⟨advances_refl book store coherent, fun within => absurd within (within_none store _)⟩
  | succ steps ih =>
      intro store coherent f set
      have still := advances_refl book store coherent
      rcases Ref.terminal_or f with small | large
      · rw [quantify_from_terminal q steps f set small]
        exact ⟨still, .terminal f set small⟩
      unfold Ends
      cases reading : store.node f with
      | error fault =>
          rw [quantify_from_failed q steps store f set large fault reading]
          exact ⟨still, fun _ live => node_failed store f large fault reading (live f (by simp))⟩
      | ok node =>
          have tests := node_live store f large node reading
          cases read : store.dropAbove node.var set with
          | error fault =>
              rw [quantify_from_dead q steps store f set node tests fault read]
              refine ⟨still, fun _ live => ?_⟩
              obtain ⟨rest, again, _⟩ := trims_ok store coherent.sound node.var set (live set (by simp))
              rw [read] at again
              exact nomatch again
          | ok rest =>
              obtain ⟨_, trims⟩ := drop_trims store coherent.sound node.var set rest read
              rcases Ref.terminal_or rest with restSmall | restLarge
              · rw [quantify_from_untouched q steps store f set rest node tests read restSmall]
                exact ⟨still, .untouched f set node rest tests trims restSmall⟩
              rw [quantify_from_memoized q steps store f set rest node tests read restLarge]
              refine advance_memoized book _ _ store coherent (fun r later => later.Quantifies q f set r) _ ?_ ?_
              · intro r later grown settled
                exact quantifies_trims later q f set r node rest (grown.kept f node tests)
                  (trims_extends store later grown node.var set rest trims) settled
              intro next only nextCoherent
              have grown := builds_extends store next (only_memo_builds store next only)
              have tests := grown.kept f node tests
              have trims := trims_extends store next grown node.var set rest trims
              have again := trims_again next node.var set rest trims
              refine ends_look _ _ next _ _ (fun head setRead => ?_) fun fault failed =>
                absurd (trims_live next node.var set rest trims) (node_failed next rest restLarge fault failed)
              have setTests := node_live next rest restLarge head setRead
              have halves : Ends (quantifyHalves q steps node rest head) next
                  (fun r later => Advances book next later ∧ later.Quantifies q f rest r)
                  (fun _ later => Advances book next later ∧ ¬ next.Within (steps + 1) [f]) := by
                unfold quantifyHalves
                split
                · next same =>
                    exact advance_member book q steps ih next nextCoherent f rest node head tests again setTests same
                · next other =>
                    exact advance_skipped book q steps ih next nextCoherent f rest node head tests again setTests other
              refine ends_mono _ next _ _ _ _ halves (fun r later known => ?_) fun fault later known => ?_
              · have further := advances_extends book next later known.1
                have fLive : later.Live f := .inr ⟨node, further.kept f node tests⟩
                have restLive : later.Live rest := .inr ⟨head, further.kept rest head setTests⟩
                exact ⟨known.1, by simp [OpKey.operands, fLive, restLive], known.2⟩
              · exact ⟨known.1, fun within =>
                  absurd (within_same store next (only_memo_bare store next only) _ _ within) known.2⟩

theorem replays_quantify_from (book : Book) (q : Quantifier) (steps : Nat) (store : Store)
    (coherent : store.Coherent book) (f set r : Ref) (within : store.Within steps [f])
    (settled : store.Quantifies q f set r) : Replays book (quantifyFrom q steps f set) store r := by
  induction steps generalizing store f set r with
  | zero => exact absurd within (within_none store _)
  | succ steps ih =>
      have half : ∀ node, store.Tests f node → ∀ later, OnlyMemo store later → later.Coherent book →
          ∀ a s b, store.Below node.var a → store.Quantifies q a s b →
          Replays book (quantifyFrom q steps a s) later b := by
        intro node tests later only laterCoherent a s b below halfSettled
        have built := only_memo_builds store later only
        have fewer := within_half book store store later (only_memo_refl store) ⟨built, laterCoherent⟩ steps f a
          node (.inr ⟨node, tests⟩) tests below within
        exact ih later laterCoherent a s b fewer.1
          (quantifies_extends store later (builds_extends store later built) q a s b halfSettled)
      have operands : ∀ node rest head, store.Tests f node → store.Tests rest head →
          ∀ a ∈ (OpKey.quantify q f rest).operands, store.Live a := by
        intro node rest head tests setTests
        have fLive : store.Live f := .inr ⟨node, tests⟩
        have restLive : store.Live rest := .inr ⟨head, setTests⟩
        simp [OpKey.operands, fLive, restLive]
      cases settled with
      | terminal _ _ small =>
          rw [quantify_from_terminal q steps f set small]
          exact replays_pure book store coherent f
      | untouched _ _ node rest tests trims small =>
          have read := trims_read store coherent.sound node.var set rest trims
          refine ⟨store, ?_, only_memo_refl store, coherent⟩
          exact quantify_from_untouched q steps store f set rest node tests read small
      | member _ _ _ node rest head low high tests trims setTests same lowHalf highHalf joined =>
          have read := trims_read store coherent.sound node.var set rest trims
          obtain ⟨lowBelow, highBelow⟩ := coherent.sound.ordered f node tests
          unfold Replays
          rw [quantify_from_memoized q steps store f set rest node tests read setTests.1]
          refine replays_memoized book _ _ store coherent r (operands node rest head tests setTests)
            (.member f rest r node rest head low high tests (trims_again store node.var set rest trims) setTests
              same lowHalf highHalf joined) ?_
          intro next only nextCoherent
          have grown := builds_extends store next (only_memo_builds store next only)
          refine replays_look book _ _ next head r (node_tests next rest head (grown.kept rest head setTests)) ?_
          rw [quantifyHalves, if_pos same]
          refine replays_bind book _ _ next low r
            (half node tests next only nextCoherent node.low head.high low lowBelow lowHalf) ?_
          intro middle toMiddle middleCoherent
          have onlyMiddle := only_memo_trans store next middle only toMiddle
          refine replays_bind book _ _ middle high r
            (half node tests middle onlyMiddle middleCoherent node.high head.high high highBelow highHalf) ?_
          intro later toLater laterCoherent
          have onlyLater := only_memo_trans store middle later onlyMiddle toLater
          have grown := builds_extends store later (only_memo_builds store later onlyLater)
          have lowLive := extends_live store later grown low (below_live store _ low
            (quantifies_below store coherent.sound q node.var node.low head.high low lowBelow lowHalf))
          have highLive := extends_live store later grown high (below_live store _ high
            (quantifies_below store coherent.sound q node.var node.high head.high high highBelow highHalf))
          exact replays_combine book q.connective later laterCoherent low high r (by simp [lowLive, highLive])
            (combines_extends store later grown q.connective low high r joined)
      | skipped _ _ _ node rest head low high tests trims setTests other lowHalf highHalf made =>
          have read := trims_read store coherent.sound node.var set rest trims
          obtain ⟨positive, bound⟩ := coherent.sound.allocated f node tests
          obtain ⟨lowBelow, highBelow⟩ := coherent.sound.ordered f node tests
          unfold Replays
          rw [quantify_from_memoized q steps store f set rest node tests read setTests.1]
          refine replays_memoized book _ _ store coherent r (operands node rest head tests setTests)
            (.skipped f rest r node rest head low high tests (trims_again store node.var set rest trims) setTests
              other lowHalf highHalf made) ?_
          intro next only nextCoherent
          have built := only_memo_builds store next only
          have grown := builds_extends store next built
          refine replays_look book _ _ next head r (node_tests next rest head (grown.kept rest head setTests)) ?_
          rw [quantifyHalves, if_neg other]
          exact replays_halves book _ _ next _ low high r positive (built.vars ▸ bound)
            (made_extends store next grown _ low high r made)
            (half node tests next only nextCoherent node.low rest low lowBelow lowHalf)
            (fun later further laterCoherent => half node tests later (only_memo_trans _ _ _ only further)
              laterCoherent node.high rest high highBelow highHalf)

theorem grows_quantify_from (book : Book) (q : Quantifier) (steps : Nat) (f set : Ref) :
    Grows book (quantifyFrom q steps f set) :=
  ends_grows book _ (fun _ r next => next.Quantifies q f set r)
    (fun store => store.Within steps [f] → ¬ ∀ h ∈ [f, set], store.Live h)
    fun store coherent => advance_quantify_from book q steps store coherent f set

theorem bare_quantify_halves (book : Book) (q : Quantifier) (steps : Nat) (a b : Store)
    (aCoherent : a.Coherent book) (bCoherent : b.Coherent book) (node : Node) (set : Ref) (head : Node)
    (lowSame : ∀ s, bare (quantifyFrom q steps node.low s a) = bare (quantifyFrom q steps node.low s b))
    (highSame : ∀ s c d, Advances book a c → Advances book b d → c.bare = d.bare →
      bare (quantifyFrom q steps node.high s c) = bare (quantifyFrom q steps node.high s d)) :
    bare (quantifyHalves q steps node set head a) = bare (quantifyHalves q steps node set head b) := by
  have grows := grows_quantify_from book q steps
  unfold quantifyHalves
  split
  · refine bare_both book _ _ _ a b aCoherent bCoherent (grows node.low head.high) (grows node.high head.high)
      (lowSame head.high) (highSame head.high) fun low high c d left right alike => ?_
    exact bare_combine book q.connective c d alike left.coherent right.coherent low high
  · refine bare_both book _ _ _ a b aCoherent bCoherent (grows node.low set) (grows node.high set)
      (lowSame set) (highSame set) fun low high c d _ _ alike => ?_
    exact bare_branch c d alike node.var low high

theorem bare_quantify_from (book : Book) (q : Quantifier) (steps : Nat) (left right : Store)
    (stores : left.bare = right.bare) (leftCoherent : left.Coherent book)
    (rightCoherent : right.Coherent book) (f set : Ref) (within : left.Within steps [f]) :
    bare (quantifyFrom q steps f set left) = bare (quantifyFrom q steps f set right) := by
  induction steps generalizing left right f set with
  | zero => exact absurd within (within_none left _)
  | succ steps ih =>
      rcases Ref.terminal_or f with small | large
      · rw [quantify_from_terminal q steps f set small]
        exact congrArg (EStateM.Result.ok f) stores
      have nodes := bare_blind (·.node f) (fun _ => rfl) left right stores
      cases reading : left.node f with
      | error fault =>
          rw [quantify_from_failed q steps left f set large fault reading,
            quantify_from_failed q steps right f set large fault (nodes ▸ reading)]
          exact congrArg (EStateM.Result.error fault) stores
      | ok node =>
          have tests := node_live left f large node reading
          have rightTests := (bare_extends left right stores).kept f node tests
          have drops := bare_blind (·.dropAbove node.var set) (fun store => drop_bare store node.var set)
            left right stores
          cases read : left.dropAbove node.var set with
          | error fault =>
              rw [quantify_from_dead q steps left f set node tests fault read,
                quantify_from_dead q steps right f set node rightTests fault (drops ▸ read)]
              exact congrArg (EStateM.Result.error fault) stores
          | ok rest =>
              rcases Ref.terminal_or rest with restSmall | restLarge
              · rw [quantify_from_untouched q steps left f set rest node tests read restSmall,
                  quantify_from_untouched q steps right f set rest node rightTests (drops ▸ read) restSmall]
                exact congrArg (EStateM.Result.ok f) stores
              obtain ⟨_, trims⟩ := drop_trims left leftCoherent.sound node.var set rest read
              rw [quantify_from_memoized q steps left f set rest node tests read restLarge,
                quantify_from_memoized q steps right f set rest node rightTests (drops ▸ read) restLarge]
              refine bare_memoized book _ _ left right stores leftCoherent rightCoherent ?_ ?_
              · intro r store alike coherent settled _
                have grown := bare_extends left store alike
                have again := trims_again store node.var set rest (trims_extends left store grown _ set rest trims)
                have replay := replays_quantify_from book q (steps + 1) store coherent f rest r
                  (within_same left store alike _ _ within) settled
                unfold Replays at replay ⊢
                rwa [quantify_from_memoized q steps store f rest rest node (grown.kept f node tests)
                  (trims_read store coherent.sound node.var rest rest again) restLarge] at replay
              intro a b leftOnly rightOnly aCoherent bCoherent
              have same : a.bare = b.bare :=
                (only_memo_bare left a leftOnly).symm.trans (stores.trans (only_memo_bare right b rightOnly))
              have aTests := (builds_extends left a (only_memo_builds left a leftOnly)).kept f node tests
              obtain ⟨lowBelow, highBelow⟩ := aCoherent.sound.ordered f node aTests
              have fits : ∀ later, Advances book a later → ∀ p, a.Below node.var p → later.Within steps [p] :=
                fun later advanced p below => (within_half book left a later leftOnly advanced steps f p node
                  (.inr ⟨node, tests⟩) aTests below within).1
              refine bare_look _ _ a b same (bare_blind (·.node rest) (fun _ => rfl) a b same) fun head _ => ?_
              refine bare_quantify_halves book q steps a b aCoherent bCoherent node rest head (fun s => ?_) ?_
              · exact ih a b same aCoherent bCoherent node.low s
                  (fits a (advances_refl book a aCoherent) node.low lowBelow)
              · intro s c d leftDone rightDone alike
                exact ih c d alike leftDone.coherent rightDone.coherent node.high s
                  (fits c leftDone node.high highBelow)

theorem quantify_run (q : Quantifier) (f set : Ref) (store : Store) :
    quantify q f set store = quantifyFrom q store.steps f set store := rfl

theorem advance_quantify (book : Book) (q : Quantifier) (store : Store) (coherent : store.Coherent book)
    (f set : Ref) :
    Ends (quantify q f set) store (fun r next => Advances book store next ∧ next.Quantifies q f set r)
      (fun _ next => Advances book store next ∧ ¬ ∀ h ∈ [f, set], store.Live h) := by
  unfold Ends
  rw [quantify_run]
  exact ends_mono _ store _ _ _ _ (advance_quantify_from book q store.steps store coherent f set)
    (fun _ _ known => known)
    (fun _ _ known => ⟨known.1, known.2 (within_steps store coherent.sound [f])⟩)

theorem bare_quantify (book : Book) (q : Quantifier) (left right : Store) (stores : left.bare = right.bare)
    (leftCoherent : left.Coherent book) (rightCoherent : right.Coherent book) (f set : Ref) :
    bare (quantify q f set left) = bare (quantify q f set right) := by
  rw [quantify_run, quantify_run, ← bare_blind steps (fun _ => rfl) left right stores]
  exact bare_quantify_from book q left.steps left right stores leftCoherent rightCoherent f set
    (within_steps left leftCoherent.sound [f])

end Action
end DomainDiagram
