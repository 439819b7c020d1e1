import DomainDiagram.Proofs.Meaning
import DomainDiagram.Boolean

set_option autoImplicit false

namespace DomainDiagram

@[simp] theorem Ref.constant_is_one (value : Bool) : (Ref.constant value).isOne = value := by
  cases value <;> rfl

@[simp] theorem Ref.constant_small (value : Bool) : Ref.constant value ≤ 1 := by
  cases value <;> decide

namespace Connective

theorem eval_comm (op : Connective) (a b : Bool) : op.eval a b = op.eval b a := by
  cases op <;> cases a <;> cases b <;> rfl

theorem shortcut_comm (op : Connective) (f g : Ref) : op.shortcut f g = op.shortcut g f := by
  simp only [shortcut, Bool.and_comm g.isTerminal, eval_comm op g.isOne]
  cases op <;> grind [Ref.isTerminal, Ref.isZero, Ref.isOne]

theorem shortcut_result (op : Connective) (f g r : Ref) (known : op.shortcut f g = some r) :
    r ≤ 1 ∨ r = f ∨ r = g := by
  unfold shortcut at known
  cases op <;> grind [Ref.constant]

theorem shortcut_decision (op : Connective) (f g : Ref) (unknown : op.shortcut f g = none) :
    2 ≤ f ∨ 2 ≤ g := by
  rcases Ref.terminal_or f with fSmall | fLarge
  · rcases Ref.terminal_or g with gSmall | gLarge
    · simp [shortcut, fSmall, gSmall] at unknown
    · exact .inr gLarge
  · exact .inl fLarge

theorem shortcut_eval (op : Connective) (f g r : Ref) (known : op.shortcut f g = some r)
    (value : Ref → Bool) (terminal : ∀ h : Ref, h ≤ 1 → value h = h.isOne) :
    value r = op.eval (value f) (value g) := by
  have zero : value 0 = false := terminal 0 (Nat.zero_le 1)
  have one : value 1 = true := terminal 1 (Nat.le_refl 1)
  by_cases both : (f.isTerminal && g.isTerminal) = true
  · obtain ⟨fSmall, gSmall⟩ : f ≤ 1 ∧ g ≤ 1 := by simpa [Ref.isTerminal] using both
    have result : Ref.constant (op.eval f.isOne g.isOne) = r := by simpa [shortcut, both] using known
    rw [terminal r (result ▸ Ref.constant_small _), terminal f fSmall, terminal g gSmall, ← result,
      Ref.constant_is_one]
  · unfold shortcut at known
    rw [if_neg both] at known
    cases op <;> grind [Ref.isZero, Ref.isOne, eval]

end Connective

namespace Store

-- The result of an operation is settled in a store if working it out again
-- would come upon nodes that are there, and make none.
inductive Combines (store : Store) (op : Connective) : Ref → Ref → Ref → Prop where
  | shortcut (f g r : Ref) (known : op.shortcut f g = some r) : Combines store op f g r
  | split (f g r : Ref) (v : Var) (f0 f1 g0 g1 low high : Ref) (unknown : op.shortcut f g = none)
      (heads : store.Heads v f ∨ store.Heads v g) (left : store.Splits v f f0 f1)
      (right : store.Splits v g g0 g1) (lowHalf : Combines store op f0 g0 low)
      (highHalf : Combines store op f1 g1 high) (made : store.Made v low high r) :
      Combines store op f g r

theorem combines_extends (old new : Store) (grown : Extends old new) (op : Connective) (f g r : Ref)
    (settled : old.Combines op f g r) : new.Combines op f g r := by
  induction settled with
  | shortcut f g r known => exact .shortcut f g r known
  | split f g r v f0 f1 g0 g1 low high unknown heads left right _ _ made lowIH highIH =>
      exact .split f g r v f0 f1 g0 g1 low high unknown
        (heads.imp (extends_heads old new grown v f) (extends_heads old new grown v g))
        (extends_splits old new grown v f f0 f1 left) (extends_splits old new grown v g g0 g1 right)
        lowIH highIH (made_extends old new grown v low high r made)

theorem combines_comm (store : Store) (op : Connective) (f g r : Ref)
    (settled : store.Combines op f g r) : store.Combines op g f r := by
  induction settled with
  | shortcut f g r known => exact .shortcut g f r (op.shortcut_comm f g ▸ known)
  | split f g r v f0 f1 g0 g1 low high unknown heads left right _ _ made lowIH highIH =>
      exact .split g f r v g0 g1 f0 f1 low high (op.shortcut_comm f g ▸ unknown) heads.symm right left
        lowIH highIH made

theorem heads_unique (store : Store) (v w : Var) (f g f0 f1 g0 g1 : Ref)
    (heads : store.Heads w f ∨ store.Heads w g) (left : store.Splits v f f0 f1)
    (right : store.Splits v g g0 g1) : v ≤ w := by
  rcases heads with fHeads | gHeads
  · exact heads_splits store v w f f0 f1 fHeads left
  · exact heads_splits store v w g g0 g1 gHeads right

theorem combines_unique (store : Store) (sound : store.Sound) (op : Connective) (f g r s : Ref)
    (settled : store.Combines op f g r) (again : store.Combines op f g s) : r = s := by
  induction settled generalizing s with
  | shortcut f g r known =>
      cases again with
      | shortcut _ _ _ other => exact Option.some.inj (known.symm.trans other)
      | split _ _ _ _ _ _ _ _ _ _ unknown => simp [known] at unknown
  | split f g r v f0 f1 g0 g1 low high unknown heads left right _ _ made lowIH highIH =>
      cases again with
      | shortcut _ _ _ other => simp [unknown] at other
      | split _ _ _ w a0 a1 b0 b1 c d _ otherHeads otherLeft otherRight otherLow otherHigh otherMade =>
          have same : v = w := Nat.le_antisymm
            (heads_unique store v w f g f0 f1 g0 g1 otherHeads left right)
            (heads_unique store w v f g a0 a1 b0 b1 heads otherLeft otherRight)
          subst same
          obtain ⟨rfl, rfl⟩ := splits_unique store v f _ _ _ _ left otherLeft
          obtain ⟨rfl, rfl⟩ := splits_unique store v g _ _ _ _ right otherRight
          rw [← lowIH c otherLow, ← highIH d otherHigh] at otherMade
          exact made_unique store sound v low high r s made otherMade

theorem heads_below (store : Store) (v w : Var) (f g : Ref) (heads : store.Heads w f ∨ store.Heads w g)
    (fBelow : store.Below v f) (gBelow : store.Below v g) : v < w := by
  rcases heads with ⟨a, b, tests⟩ | ⟨a, b, tests⟩
  · exact below_tests store v f _ fBelow tests
  · exact below_tests store v g _ gBelow tests

theorem combines_below (store : Store) (sound : store.Sound) (op : Connective) (v : Var) (f g r : Ref)
    (fBelow : store.Below v f) (gBelow : store.Below v g) (settled : store.Combines op f g r) :
    store.Below v r := by
  induction settled generalizing v with
  | shortcut f g r known =>
      rcases op.shortcut_result f g r known with small | rfl | rfl
      · exact .inl small
      · exact fBelow
      · exact gBelow
  | split f g r w f0 f1 g0 g1 low high unknown heads left right _ _ made lowIH highIH =>
      have further := heads_below store v w f g heads fBelow gBelow
      have lowBelow := lowIH w (splits_below store sound w f f0 f1 left).1
        (splits_below store sound w g g0 g1 right).1
      exact made_below store w v low high r further
        (below_mono store v w low (Nat.le_of_lt further) lowBelow) made

theorem combines_eval (store : Store) (sound : store.Sound) (op : Connective) (f g r : Ref)
    (settled : store.Combines op f g r) (env : Var → Bool) :
    store.eval r env = op.eval (store.eval f env) (store.eval g env) := by
  induction settled with
  | shortcut f g r known =>
      exact op.shortcut_eval f g r known (fun h => store.eval h env) (fun h small =>
        eval_terminal store env h small)
  | split f g r v f0 f1 g0 g1 low high _ _ left right _ _ made lowIH highIH =>
      rw [eval_made store sound env v r low high made, eval_splits store sound env v f f0 f1 left,
        eval_splits store sound env v g g0 g1 right, lowIH, highIH]
      cases env v <;> rfl

inductive Negates (store : Store) : Ref → Ref → Prop where
  | terminal (f : Ref) (small : f ≤ 1) : Negates store f (Ref.constant f.isZero)
  | decision (f r : Ref) (node : Node) (low high : Ref) (tests : store.Tests f node)
      (lowHalf : Negates store node.low low) (highHalf : Negates store node.high high)
      (made : store.Made node.var low high r) : Negates store f r

theorem negates_extends (old new : Store) (grown : Extends old new) (f r : Ref)
    (settled : old.Negates f r) : new.Negates f r := by
  induction settled with
  | terminal f small => exact .terminal f small
  | decision f r node low high tests _ _ made lowIH highIH =>
      exact .decision f r node low high (grown.kept f node tests) lowIH highIH
        (made_extends old new grown node.var low high r made)

theorem negates_unique (store : Store) (sound : store.Sound) (f r s : Ref)
    (settled : store.Negates f r) (again : store.Negates f s) : r = s := by
  induction settled generalizing s with
  | terminal f small =>
      cases again with
      | terminal => rfl
      | decision _ _ _ _ _ tests => exact absurd tests.1 (Nat.not_le_of_lt (Nat.lt_succ_of_le small))
  | decision f r node low high tests _ _ made lowIH highIH =>
      cases again with
      | terminal _ small => exact absurd tests.1 (Nat.not_le_of_lt (Nat.lt_succ_of_le small))
      | decision _ _ other a b otherTests otherLow otherHigh otherMade =>
          have same := tests_node_unique store f node other tests otherTests
          subst same
          rw [← lowIH a otherLow, ← highIH b otherHigh] at otherMade
          exact made_unique store sound node.var low high r s made otherMade

theorem negates_below (store : Store) (sound : store.Sound) (v : Var) (f r : Ref)
    (fBelow : store.Below v f) (settled : store.Negates f r) : store.Below v r := by
  induction settled generalizing v with
  | terminal f small => exact .inl (Ref.constant_small _)
  | decision f r node low high tests _ _ made lowIH highIH =>
      have further := below_tests store v f node fBelow tests
      have lowBelow := lowIH node.var (sound.ordered f node tests).1
      exact made_below store node.var v low high r further
        (below_mono store v node.var low (Nat.le_of_lt further) lowBelow) made

theorem negates_eval (store : Store) (sound : store.Sound) (f r : Ref) (settled : store.Negates f r)
    (env : Var → Bool) : store.eval r env = !store.eval f env := by
  induction settled with
  | terminal f small =>
      simp only [eval_terminal, small, Ref.constant_small, Ref.constant_is_one]
      rcases Ref.terminal_cases f small with rfl | rfl <;> rfl
  | decision f r node low high tests _ _ made lowIH highIH =>
      rw [eval_made store sound env node.var r low high made, eval_tests store sound env f node tests,
        lowIH, highIH]
      cases env node.var <;> rfl

-- How a choice is worked out: at once, by a simpler operation, or by halves.
inductive Route where
  | known (result : Ref)
  | negation
  | disjunction
  | conjunction
  | halves

def route (f g h : Ref) : Route :=
  if f.isOne || g == h then .known g
  else if f.isZero then .known h
  else if g.isOne && h.isZero then .known f
  else if g.isZero && h.isOne then .negation
  else if g.isOne then .disjunction
  else if h.isZero then .conjunction
  else .halves

theorem route_known (f g h r : Ref) (known : route f g h = .known r) : r = f ∨ r = g ∨ r = h := by
  unfold route at known
  grind

theorem route_negation (f g h : Ref) (negation : route f g h = .negation) : g = 0 ∧ h = 1 := by
  unfold route at negation
  grind [Ref.isZero, Ref.isOne]

theorem route_disjunction (f g h : Ref) (disjunction : route f g h = .disjunction) : g = 1 := by
  unfold route at disjunction
  grind [Ref.isOne]

theorem route_conjunction (f g h : Ref) (conjunction : route f g h = .conjunction) : h = 0 := by
  unfold route at conjunction
  grind [Ref.isZero]

theorem route_halves (f g h : Ref) (halves : route f g h = .halves) : 2 ≤ f := by
  unfold route at halves
  rcases Ref.terminal_or f with small | large
  · rcases Ref.terminal_cases f small with rfl | rfl <;> simp [Ref.isOne, Ref.isZero] at halves
    split at halves <;> simp at halves
  · exact large

theorem route_eval (f g h r : Ref) (known : route f g h = .known r) (value : Ref → Bool)
    (zero : value 0 = false) (one : value 1 = true) :
    value r = if value f then value g else value h := by
  unfold route at known
  grind [Ref.isZero, Ref.isOne]

inductive Chooses (store : Store) : Ref → Ref → Ref → Ref → Prop where
  | known (f g h r : Ref) (way : route f g h = .known r) : Chooses store f g h r
  | negation (f g h r : Ref) (way : route f g h = .negation) (settled : store.Negates f r) :
      Chooses store f g h r
  | disjunction (f g h r : Ref) (way : route f g h = .disjunction) (settled : store.Combines .or f h r) :
      Chooses store f g h r
  | conjunction (f g h r : Ref) (way : route f g h = .conjunction) (settled : store.Combines .and f g r) :
      Chooses store f g h r
  | split (f g h r : Ref) (v : Var) (f0 f1 g0 g1 h0 h1 low high : Ref) (way : route f g h = .halves)
      (heads : store.Heads v f ∨ store.Heads v g ∨ store.Heads v h) (first : store.Splits v f f0 f1)
      (second : store.Splits v g g0 g1) (third : store.Splits v h h0 h1)
      (lowHalf : Chooses store f0 g0 h0 low) (highHalf : Chooses store f1 g1 h1 high)
      (made : store.Made v low high r) : Chooses store f g h r

theorem chooses_extends (old new : Store) (grown : Extends old new) (f g h r : Ref)
    (settled : old.Chooses f g h r) : new.Chooses f g h r := by
  induction settled with
  | known f g h r way => exact .known f g h r way
  | negation f g h r way settled => exact .negation f g h r way (negates_extends old new grown f r settled)
  | disjunction f g h r way settled =>
      exact .disjunction f g h r way (combines_extends old new grown .or f h r settled)
  | conjunction f g h r way settled =>
      exact .conjunction f g h r way (combines_extends old new grown .and f g r settled)
  | split f g h r v f0 f1 g0 g1 h0 h1 low high way heads first second third _ _ made lowIH highIH =>
      exact .split f g h r v f0 f1 g0 g1 h0 h1 low high way
        (heads.imp (extends_heads old new grown v f)
          (Or.imp (extends_heads old new grown v g) (extends_heads old new grown v h)))
        (extends_splits old new grown v f f0 f1 first) (extends_splits old new grown v g g0 g1 second)
        (extends_splits old new grown v h h0 h1 third) lowIH highIH
        (made_extends old new grown v low high r made)

theorem third_heads_unique (store : Store) (v w : Var) (f g h f0 f1 g0 g1 h0 h1 : Ref)
    (heads : store.Heads w f ∨ store.Heads w g ∨ store.Heads w h) (first : store.Splits v f f0 f1)
    (second : store.Splits v g g0 g1) (third : store.Splits v h h0 h1) : v ≤ w := by
  rcases heads with fHeads | gHeads | hHeads
  · exact heads_splits store v w f f0 f1 fHeads first
  · exact heads_splits store v w g g0 g1 gHeads second
  · exact heads_splits store v w h h0 h1 hHeads third

theorem chooses_unique (store : Store) (sound : store.Sound) (f g h r s : Ref)
    (settled : store.Chooses f g h r) (again : store.Chooses f g h s) : r = s := by
  induction settled generalizing s with
  | known f g h r way => cases again <;> simp_all
  | negation f g h r way settled =>
      cases again with
      | negation _ _ _ _ _ other => exact negates_unique store sound f r s settled other
      | known _ _ _ _ other | disjunction _ _ _ _ other | conjunction _ _ _ _ other =>
          simp [way] at other
      | split _ _ _ _ _ _ _ _ _ _ _ _ _ other => simp [way] at other
  | disjunction f g h r way settled =>
      cases again with
      | disjunction _ _ _ _ _ other => exact combines_unique store sound .or f h r s settled other
      | known _ _ _ _ other | negation _ _ _ _ other | conjunction _ _ _ _ other => simp [way] at other
      | split _ _ _ _ _ _ _ _ _ _ _ _ _ other => simp [way] at other
  | conjunction f g h r way settled =>
      cases again with
      | conjunction _ _ _ _ _ other => exact combines_unique store sound .and f g r s settled other
      | known _ _ _ _ other | negation _ _ _ _ other | disjunction _ _ _ _ other => simp [way] at other
      | split _ _ _ _ _ _ _ _ _ _ _ _ _ other => simp [way] at other
  | split f g h r v f0 f1 g0 g1 h0 h1 low high way heads first second third _ _ made lowIH highIH =>
      cases again with
      | known _ _ _ _ other | negation _ _ _ _ other | disjunction _ _ _ _ other
      | conjunction _ _ _ _ other => simp [way] at other
      | split _ _ _ _ w a0 a1 b0 b1 c0 c1 c d _ otherHeads otherFirst otherSecond otherThird otherLow
          otherHigh otherMade =>
          have same : v = w := Nat.le_antisymm
            (third_heads_unique store v w f g h f0 f1 g0 g1 h0 h1 otherHeads first second third)
            (third_heads_unique store w v f g h a0 a1 b0 b1 c0 c1 heads otherFirst otherSecond otherThird)
          subst same
          obtain ⟨rfl, rfl⟩ := splits_unique store v f _ _ _ _ first otherFirst
          obtain ⟨rfl, rfl⟩ := splits_unique store v g _ _ _ _ second otherSecond
          obtain ⟨rfl, rfl⟩ := splits_unique store v h _ _ _ _ third otherThird
          rw [← lowIH c otherLow, ← highIH d otherHigh] at otherMade
          exact made_unique store sound v low high r s made otherMade

theorem third_heads_below (store : Store) (v w : Var) (f g h : Ref)
    (heads : store.Heads w f ∨ store.Heads w g ∨ store.Heads w h) (fBelow : store.Below v f)
    (gBelow : store.Below v g) (hBelow : store.Below v h) : v < w := by
  rcases heads with fHeads | others
  · exact heads_below store v w f f (.inl fHeads) fBelow fBelow
  · exact heads_below store v w g h others gBelow hBelow

theorem chooses_below (store : Store) (sound : store.Sound) (v : Var) (f g h r : Ref)
    (fBelow : store.Below v f) (gBelow : store.Below v g) (hBelow : store.Below v h)
    (settled : store.Chooses f g h r) : store.Below v r := by
  induction settled generalizing v with
  | known f g h r way =>
      rcases route_known f g h r way with rfl | rfl | rfl
      · exact fBelow
      · exact gBelow
      · exact hBelow
  | negation f g h r _ settled => exact negates_below store sound v f r fBelow settled
  | disjunction f g h r _ settled => exact combines_below store sound .or v f h r fBelow hBelow settled
  | conjunction f g h r _ settled => exact combines_below store sound .and v f g r fBelow gBelow settled
  | split f g h r w f0 f1 g0 g1 h0 h1 low high _ heads first second third _ _ made lowIH highIH =>
      have further := third_heads_below store v w f g h heads fBelow gBelow hBelow
      have lowBelow := lowIH w (splits_below store sound w f f0 f1 first).1
        (splits_below store sound w g g0 g1 second).1 (splits_below store sound w h h0 h1 third).1
      exact made_below store w v low high r further
        (below_mono store v w low (Nat.le_of_lt further) lowBelow) made

theorem chooses_eval (store : Store) (sound : store.Sound) (f g h r : Ref)
    (settled : store.Chooses f g h r) (env : Var → Bool) :
    store.eval r env = if store.eval f env then store.eval g env else store.eval h env := by
  induction settled with
  | known f g h r way =>
      exact route_eval f g h r way (fun a => store.eval a env) (store.eval_zero env) (store.eval_one env)
  | negation f g h r way settled =>
      obtain ⟨rfl, rfl⟩ := route_negation f g h way
      rw [negates_eval store sound f r settled env, eval_zero, eval_one]
      cases store.eval f env <;> rfl
  | disjunction f g h r way settled =>
      obtain rfl := route_disjunction f g h way
      rw [combines_eval store sound .or f h r settled env, eval_one]
      cases store.eval f env <;> rfl
  | conjunction f g h r way settled =>
      obtain rfl := route_conjunction f g h way
      rw [combines_eval store sound .and f g r settled env, eval_zero]
      cases store.eval f env <;> simp [Connective.eval]
  | split f g h r v f0 f1 g0 g1 h0 h1 low high _ _ first second third _ _ made lowIH highIH =>
      rw [eval_made store sound env v r low high made, eval_splits store sound env v f f0 f1 first,
        eval_splits store sound env v g g0 g1 second, eval_splits store sound env v h h0 h1 third, lowIH,
        highIH]
      cases env v <;> rfl

end Store
end DomainDiagram
