import DomainDiagram.Proofs.Collection
import DomainDiagram.Proofs.Paths
import Mathlib.Data.Finset.Card

set_option autoImplicit false

namespace DomainDiagram

namespace BlockTable

variable {σ : Type} (table : BlockTable) (store : Store) (write : σ → String → Bool × σ)

-- A loop over a stack of nodes still to be printed, with the choices that lead
-- to each. A turn takes the top one off, and puts its children on the stack,
-- the low one above the high one.
inductive Unstacks : List (Ref × Path) → EStateM Failure (Printout σ) Unit → Prop where
  | done : Unstacks [] (pure ())
  | zero (path : Path) (rest : List (Ref × Path)) (act : EStateM Failure (Printout σ) Unit)
      (later : Unstacks rest act) : Unstacks ((0, path) :: rest) act
  | one (path : Path) (rest : List (Ref × Path)) (act : EStateM Failure (Printout σ) Unit)
      (later : Unstacks rest act) :
      Unstacks ((1, path) :: rest) (do Printout.offerGroup write (groupText (table.group path)); act)
  | decision (f : Ref) (node : Node) (path : Path) (rest : List (Ref × Path))
      (act : EStateM Failure (Printout σ) Unit) (large : 2 ≤ f) (used : store.node f = .ok node)
      (later : Unstacks ((node.low, (node.var, false) :: path) :: (node.high, (node.var, true) :: path) :: rest) act) :
      Unstacks ((f, path) :: rest) act
  | broken (f : Ref) (fault : Fault) (path : Path) (rest : List (Ref × Path)) (large : 2 ≤ f)
      (unused : store.node f = .error fault) : Unstacks ((f, path) :: rest) (throw (.broken fault))

theorem unstacks_unique (stack : List (Ref × Path)) (act other : EStateM Failure (Printout σ) Unit)
    (first : Unstacks table store write stack act) (second : Unstacks table store write stack other) : act = other := by
  induction first generalizing other with
  | done =>
      cases second
      rfl
  | zero path rest act _ ih =>
      cases second with
      | zero _ _ _ later => exact ih other later
      | decision _ _ _ _ _ large => exact absurd large (by decide)
      | broken _ _ _ _ large => exact absurd large (by decide)
  | one path rest act _ ih =>
      cases second with
      | one _ _ last later => rw [ih last later]
      | decision _ _ _ _ _ large => exact absurd large (by decide)
      | broken _ _ _ _ large => exact absurd large (by decide)
  | decision f node path rest act large used _ ih =>
      cases second with
      | zero => exact absurd large (by decide)
      | one => exact absurd large (by decide)
      | decision _ _ _ _ _ _ also later =>
          obtain rfl := Except.ok.inj (used.symm.trans also)
          exact ih other later
      | broken _ _ _ _ _ unused => exact nomatch used.symm.trans unused
  | broken f fault path rest large unused =>
      cases second with
      | zero => exact absurd large (by decide)
      | one => exact absurd large (by decide)
      | decision _ _ _ _ _ _ used => exact nomatch used.symm.trans unused
      | broken _ _ _ _ _ also => rw [Except.error.inj (unused.symm.trans also)]

theorem unstacks_print_from (sound : store.Sound) (f : Ref) (live : store.Live f) (path : Path)
    (rest : List (Ref × Path)) (act : EStateM Failure (Printout σ) Unit) (later : Unstacks table store write rest act) :
    Unstacks table store write ((f, path) :: rest) (do table.printFrom store write store.steps f path; act) := by
  have each := Store.walk_induction store sound (fun steps f => ∀ (path : Path) (rest : List (Ref × Path))
    (act : EStateM Failure (Printout σ) Unit), Unstacks table store write rest act →
      Unstacks table store write ((f, path) :: rest) (do table.printFrom store write steps f path; act))
  refine each ?_ ?_ ?_ f live path rest act later
  · intro steps path rest act later
    exact .zero path rest act later
  · intro steps path rest act later
    exact .one path rest act later
  · intro steps f node tests low high path rest act later
    obtain ⟨notZero, notOne⟩ := Store.tests_large store f node tests
    have used := Store.node_tests store f node tests
    refine .decision f node path rest _ tests.1 used ?_
    simp only [printFrom, notZero, notOne, used, bind_assoc, Bool.false_eq_true, if_false]
    exact low _ _ _ (high _ _ _ later)

theorem unstacks_iff (sound : store.Sound) (f : Ref) (act : EStateM Failure (Printout σ) Unit) :
    Unstacks table store write [(f, [])] act ↔ act = table.printFrom store write store.steps f [] := by
  have descends : Unstacks table store write [(f, [])] (table.printFrom store write store.steps f []) := by
    by_cases live : store.Live f
    · simpa using unstacks_print_from table store write sound f live [] [] _ .done
    · have large : 2 ≤ f := Nat.lt_of_not_le fun small => live (.inl small)
      cases read : store.node f with
      | ok node => exact absurd (.inr ⟨node, Store.node_live store f large node read⟩) live
      | error fault =>
          have notZero : f.isZero = false := beq_eq_false_iff_ne.mpr (Nat.ne_of_gt (Nat.lt_of_succ_lt large))
          have notOne : f.isOne = false := beq_eq_false_iff_ne.mpr (Nat.ne_of_gt large)
          simp only [printFrom, Store.steps, notZero, notOne, read, Bool.false_eq_true, if_false]
          exact .broken f fault [] [] large read
  constructor
  · exact fun unstacks => unstacks_unique table store write _ _ _ unstacks descends
  · rintro rfl
    exact descends

end BlockTable

namespace Store

-- A loop over a queue of nodes still to be visited. A turn takes the first one,
-- and puts the children of one not visited before at the end.
inductive Unqueues (store : Store) :
    List Ref → Std.TreeSet Ref → Except Fault (Std.TreeSet Ref) → Prop where
  | done (seen : Std.TreeSet Ref) : Unqueues store [] seen (.ok seen)
  | again (f : Ref) (queue : List Ref) (seen : Std.TreeSet Ref) (outcome : Except Fault (Std.TreeSet Ref))
      (old : f ∈ seen) (later : Unqueues store queue seen outcome) : Unqueues store (f :: queue) seen outcome
  | fresh (f : Ref) (node : Node) (queue : List Ref) (seen : Std.TreeSet Ref)
      (outcome : Except Fault (Std.TreeSet Ref)) (new : f ∉ seen) (used : store.node f = .ok node)
      (later : Unqueues store (queue ++ [node.low, node.high]) (seen.insert f) outcome) :
      Unqueues store (f :: queue) seen outcome
  | broken (f : Ref) (fault : Fault) (queue : List Ref) (seen : Std.TreeSet Ref) (new : f ∉ seen)
      (unused : store.node f = .error fault) : Unqueues store (f :: queue) seen (.error fault)

theorem unqueues_unique (store : Store) (queue : List Ref) (seen : Std.TreeSet Ref)
    (outcome other : Except Fault (Std.TreeSet Ref)) (first : store.Unqueues queue seen outcome)
    (second : store.Unqueues queue seen other) : outcome = other := by
  induction first with
  | done seen =>
      cases second
      rfl
  | again f queue seen outcome old _ ih =>
      cases second with
      | again _ _ _ _ _ later => exact ih later
      | fresh _ _ _ _ _ new => exact absurd old new
      | broken _ _ _ _ new => exact absurd old new
  | fresh f node queue seen outcome new used _ ih =>
      cases second with
      | again _ _ _ _ old => exact absurd old new
      | fresh _ _ _ _ _ _ also later =>
          obtain rfl := Except.ok.inj (used.symm.trans also)
          exact ih later
      | broken _ _ _ _ _ unused => exact nomatch used.symm.trans unused
  | broken f fault queue seen new unused =>
      cases second with
      | again _ _ _ _ old => exact absurd old new
      | fresh _ _ _ _ _ _ used => exact nomatch used.symm.trans unused
      | broken _ _ _ _ _ also => rw [Except.error.inj (unused.symm.trans also)]

-- Between two turns: nothing outside the closed set has come up, and what is
-- missing from the nodes visited is in the queue.
structure Frontier (store : Store) (roots : List Ref) (alive : Std.TreeSet Ref) (queue : List Ref)
    (seen : Std.TreeSet Ref) : Prop where
  zero : 0 ∈ seen
  one : 1 ∈ seen
  queued : ∀ f ∈ queue, f ∈ alive
  visited : ∀ f ∈ seen, f ∈ alive
  rooted : ∀ f ∈ roots, f ∈ seen ∨ f ∈ queue
  closed : ∀ f ∈ seen, 2 ≤ f → ∃ node, store.Tests f node ∧
    (node.low ∈ seen ∨ node.low ∈ queue) ∧ (node.high ∈ seen ∨ node.high ∈ queue)

section Queue

variable (store : Store) (roots queue : List Ref) (alive seen : Std.TreeSet Ref) (f : Ref)

theorem frontier_again (old : f ∈ seen) (frontier : store.Frontier roots alive (f :: queue) seen) :
    store.Frontier roots alive queue seen := by
  have moves : ∀ g, g ∈ seen ∨ g ∈ f :: queue → g ∈ seen ∨ g ∈ queue := by
    rintro g (inside | listed)
    · exact .inl inside
    · rcases List.mem_cons.mp listed with rfl | later
      · exact .inl old
      · exact .inr later
  refine ⟨frontier.zero, frontier.one, fun g listed => frontier.queued g (List.mem_cons_of_mem f listed),
    frontier.visited, fun g member => moves g (frontier.rooted g member), fun g inside large => ?_⟩
  obtain ⟨node, tests, low, high⟩ := frontier.closed g inside large
  exact ⟨node, tests, moves _ low, moves _ high⟩

theorem frontier_fresh (closed : store.Closed alive) (new : f ∉ seen)
    (frontier : store.Frontier roots alive (f :: queue) seen) :
    ∃ node, store.Tests f node ∧ store.Frontier roots alive (queue ++ [node.low, node.high]) (seen.insert f) := by
  have inside := frontier.queued f List.mem_cons_self
  have large : 2 ≤ f := by
    refine Nat.lt_of_not_le fun small => new ?_
    rcases Ref.terminal_cases f small with rfl | rfl
    · exact frontier.zero
    · exact frontier.one
  obtain ⟨node, tests, low, high⟩ := closed.decision f inside large
  have kept : ∀ g ∈ seen, g ∈ seen.insert f := fun g old => by simp [old]
  have moves : ∀ g, g ∈ seen ∨ g ∈ f :: queue → g ∈ seen.insert f ∨ g ∈ queue ++ [node.low, node.high] := by
    rintro g (old | listed)
    · exact .inl (kept g old)
    · rcases List.mem_cons.mp listed with rfl | later
      · exact .inl (by simp)
      · exact .inr (List.mem_append_left _ later)
  refine ⟨node, tests, kept 0 frontier.zero, kept 1 frontier.one, ?queued, ?visited,
    fun g member => moves g (frontier.rooted g member), ?closed⟩
  case queued =>
    intro g listed
    rcases List.mem_append.mp listed with early | child
    · exact frontier.queued g (List.mem_cons_of_mem f early)
    · rcases List.mem_pair.mp child with rfl | rfl
      · exact low
      · exact high
  case visited =>
    intro g member
    rcases (mem_insert_iff seen f g).mp member with rfl | old
    · exact inside
    · exact frontier.visited g old
  case closed =>
    intro g member big
    rcases (mem_insert_iff seen f g).mp member with rfl | old
    · exact ⟨node, tests, .inr (by simp), .inr (by simp)⟩
    · obtain ⟨other, otherTests, left, right⟩ := frontier.closed g old big
      exact ⟨other, otherTests, moves _ left, moves _ right⟩

def unseen (alive seen : Std.TreeSet Ref) : Finset Ref := alive.toList.toFinset.filter (· ∉ seen)

theorem unseen_insert (inside : f ∈ alive) (new : f ∉ seen) :
    (unseen alive (seen.insert f)).card < (unseen alive seen).card := by
  apply Finset.card_lt_card
  refine Finset.ssubset_iff_of_subset ?_ |>.mpr ⟨f, ?_, ?_⟩
  · intro g member
    obtain ⟨listed, fresh⟩ := Finset.mem_filter.mp member
    exact Finset.mem_filter.mpr ⟨listed, fun old => fresh (by simp [old])⟩
  · exact Finset.mem_filter.mpr ⟨by simpa using inside, new⟩
  · exact fun member => (Finset.mem_filter.mp member).2 (by simp)

end Queue

theorem frontier_unqueues (store : Store) (roots queue : List Ref) (alive seen : Std.TreeSet Ref)
    (closed : store.Closed alive) (frontier : store.Frontier roots alive queue seen) :
    ∃ after, store.Unqueues queue seen (.ok after) ∧ store.Frontier roots alive [] after := by
  match queue with
  | [] => exact ⟨seen, .done seen, frontier⟩
  | f :: rest =>
      by_cases old : f ∈ seen
      · obtain ⟨after, later, ended⟩ := frontier_unqueues store roots rest alive seen closed
          (frontier_again store roots rest alive seen f old frontier)
        exact ⟨after, .again f rest seen _ old later, ended⟩
      · have fewer := unseen_insert alive seen f (frontier.queued f List.mem_cons_self) old
        obtain ⟨node, tests, next⟩ := frontier_fresh store roots rest alive seen f closed old frontier
        obtain ⟨after, later, ended⟩ := frontier_unqueues store roots _ alive (seen.insert f) closed next
        exact ⟨after, .fresh f node rest seen _ old (node_tests store f node tests) later, ended⟩
  -- a turn that puts two nodes into the queue leaves one fewer to be visited
  termination_by 2 * (unseen alive seen).card + queue.length

theorem frontier_done (store : Store) (roots : List Ref) (alive seen : Std.TreeSet Ref)
    (reached : ∀ g ∈ alive, g ≤ 1 ∨ ∃ f ∈ roots, store.Reaches f g)
    (frontier : store.Frontier roots alive [] seen) (g : Ref) : g ∈ seen ↔ g ∈ alive := by
  have settled : ∀ f, f ∈ seen ∨ f ∈ [] → f ∈ seen := fun f pending => pending.resolve_right List.not_mem_nil
  have closed : store.Closed seen := by
    refine ⟨frontier.zero, frontier.one, fun f inside large => ?_⟩
    obtain ⟨node, tests, low, high⟩ := frontier.closed f inside large
    exact ⟨node, tests, settled _ low, settled _ high⟩
  refine ⟨frontier.visited g, fun inside => ?_⟩
  rcases reached g inside with small | ⟨f, member, reach⟩
  · rcases Ref.terminal_cases g small with rfl | rfl
    · exact closed.zero
    · exact closed.one
  · exact closed_reaches store seen closed f g reach (settled f (frontier.rooted f member))

theorem unqueues_found (store : Store) (sound : store.Sound) (roots : List Ref)
    (live : ∀ f ∈ roots, store.Live f) :
    ∃ seen alive, store.Unqueues roots (.ofList [0, 1]) (.ok seen) ∧ store.reach roots = .ok alive ∧
      ∀ f, f ∈ seen ↔ f ∈ alive := by
  obtain ⟨alive, done, closed, rooted, reached⟩ := reach_ok store sound roots live
  have start : store.Frontier roots alive roots (.ofList [0, 1]) := by
    refine ⟨by simp, by simp, rooted, fun f inside => ?_,
      fun f member => .inr member, fun f inside large => ?_⟩
    · rcases (terminals_mem f).mp inside with rfl | rfl
      · exact closed.zero
      · exact closed.one
    · rcases (terminals_mem f).mp inside with rfl | rfl <;> exact absurd large (by decide)
  obtain ⟨seen, unqueues, ended⟩ := frontier_unqueues store roots roots alive _ closed start
  exact ⟨seen, alive, unqueues, done, frontier_done store roots alive seen reached ended⟩

theorem first_dead (store : Store) (roots : List Ref) (some_dead : ¬ ∀ f ∈ roots, store.Live f) :
    ∃ before bad after, roots = before ++ bad :: after ∧ (∀ f ∈ before, store.Live f) ∧ ¬ store.Live bad := by
  induction roots with
  | nil => exact absurd (by simp) some_dead
  | cons f rest ih =>
      by_cases live : store.Live f
      · obtain ⟨before, bad, after, rfl, early, dead⟩ := ih fun later => some_dead (by simpa [live] using later)
        exact ⟨f :: before, bad, after, rfl, by simpa [live] using early, dead⟩
      · exact ⟨[], f, rest, rfl, by simp, live⟩

section Broken

variable (store : Store) (before after : List Ref) (bad : Ref) (fault : Fault) (seen : Std.TreeSet Ref)

theorem unqueues_broken (live : ∀ f ∈ before, store.Live f) (dead : bad ∉ seen) (unused : store.node bad = .error fault)
    (zero : 0 ∈ seen) (one : 1 ∈ seen) : store.Unqueues (before ++ bad :: after) seen (.error fault) := by
  -- the roots stand before all that they put into the queue
  induction before generalizing seen after with
  | nil => exact .broken bad fault after seen dead unused
  | cons f rest ih =>
      have others : ∀ g ∈ rest, store.Live g := fun g member => live g (List.mem_cons_of_mem f member)
      by_cases old : f ∈ seen
      · exact .again f _ seen _ old (ih after seen others dead zero one)
      · rcases live f List.mem_cons_self with small | ⟨node, tests⟩
        · rcases Ref.terminal_cases f small with rfl | rfl
          · exact absurd zero old
          · exact absurd one old
        · have used := node_tests store f node tests
          have kept : ∀ g ∈ seen, g ∈ seen.insert f := fun g inside => by simp [inside]
          have moved : rest ++ bad :: after ++ [node.low, node.high] =
              rest ++ bad :: (after ++ [node.low, node.high]) := by rw [List.append_assoc, List.cons_append]
          refine .fresh f node (rest ++ bad :: after) seen _ old used ?_
          rw [moved]
          refine ih _ (seen.insert f) others (fun inside => ?_) (kept 0 zero) (kept 1 one)
          rcases (mem_insert_iff seen f bad).mp inside with rfl | early
          · exact nomatch used.symm.trans unused
          · exact dead early

theorem reach_broken (sound : store.Sound) (live : ∀ f ∈ before, store.Live f) (dead : ¬ store.Live bad)
    (unused : store.node bad = .error fault) : store.reach (before ++ bad :: after) = .error fault := by
  obtain ⟨alive, done, closed, _⟩ := reach_ok store sound before live
  have outside : bad ∉ alive := by
    intro inside
    obtain ⟨node, tests, _⟩ := closed.decision bad inside (Nat.lt_of_not_le fun small => dead (.inl small))
    exact dead (.inr ⟨node, tests⟩)
  rw [reach] at done ⊢
  rw [List.foldlM_append, done]
  change List.foldlM (store.mark store.steps) alive (bad :: after) = .error fault
  rw [List.foldlM_cons, steps, mark, if_neg (by simpa using outside), unused]
  rfl

end Broken

-- The loop over the queue ends, and comes to the same nodes as the descent from
-- the roots, or to the same fault.
theorem unqueues_reach (store : Store) (sound : store.Sound) (roots : List Ref) :
    ∃ outcome, (∀ other, store.Unqueues roots (.ofList [0, 1]) other ↔ other = outcome) ∧
      outcome.map (·.toList) = (store.reach roots).map (·.toList) := by
  obtain ⟨outcome, unqueues, same⟩ : ∃ outcome, store.Unqueues roots (.ofList [0, 1]) outcome ∧
      outcome.map (·.toList) = (store.reach roots).map (·.toList) := by
    by_cases live : ∀ f ∈ roots, store.Live f
    · obtain ⟨seen, alive, unqueues, done, same⟩ := unqueues_found store sound roots live
      refine ⟨.ok seen, unqueues, ?_⟩
      rw [done]
      exact congrArg Except.ok (Std.TreeSet.Equiv.of_forall_mem_iff same).toList_eq
    · obtain ⟨before, bad, after, rfl, early, dead⟩ := first_dead store roots live
      cases read : store.node bad with
      | ok node =>
          have large : 2 ≤ bad := Nat.lt_of_not_le fun small => dead (.inl small)
          exact absurd (.inr ⟨node, node_live store bad large node read⟩) dead
      | error fault =>
          have outside : bad ∉ Std.TreeSet.ofList [0, 1] := by
            intro inside
            rcases (terminals_mem bad).mp inside with rfl | rfl <;> exact dead (.inl (by decide))
          refine ⟨.error fault, unqueues_broken store before after bad fault _ early outside read
            (by simp) (by simp), ?_⟩
          rw [reach_broken store before after bad fault sound early dead read]
  refine ⟨outcome, fun other => ⟨fun also => unqueues_unique store roots _ _ _ also unqueues, ?_⟩, same⟩
  rintro rfl
  exact unqueues

end Store

end DomainDiagram
