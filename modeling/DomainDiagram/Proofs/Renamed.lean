import DomainDiagram.Proofs.Quantified
import DomainDiagram.Renaming

set_option autoImplicit false

namespace DomainDiagram

def Renaming.image (names : Renaming) (v : Var) : Var := (names.get? v).getD v

-- The renaming that an identity stands for, if it was ever given out.
abbrev Book := Nat → Option (Var → Var)

namespace OpKey

def operands : OpKey → List Ref
  | .combine _ f g => [f, g]
  | .negate f => [f]
  | .choose f g h => [f, g, h]
  | .quantify _ f set => [f, set]
  | .rename f _ => [f]

end OpKey

structure Memo.Sound (memo : Memo) : Prop where
  placed : ∀ (i : Nat) (key : OpKey) (r : Ref), memo.slots[i]? = some (key, r) → memo.slot key = i
  filled : memo.filled = memo.slots.size

namespace Store

inductive Renames (store : Store) (image : Var → Var) : Ref → Ref → Prop where
  | terminal (f : Ref) (small : f ≤ 1) : Renames store image f f
  | decision (f r : Ref) (node : Node) (low high test : Ref) (tests : store.Tests f node)
      (lowHalf : Renames store image node.low low) (highHalf : Renames store image node.high high)
      (literal : store.Tests test ⟨image node.var, 0, 1⟩) (chosen : store.Chooses test high low r) :
      Renames store image f r

theorem renames_extends (old new : Store) (grown : Extends old new) (image : Var → Var) (f r : Ref)
    (settled : old.Renames image f r) : new.Renames image f r := by
  induction settled with
  | terminal f small => exact .terminal f small
  | decision f r node low high test tests _ _ literal chosen lowIH highIH =>
      exact .decision f r node low high test (grown.kept f node tests) lowIH highIH
        (grown.kept test _ literal) (chooses_extends old new grown test high low r chosen)

theorem renames_unique (store : Store) (sound : store.Sound) (image : Var → Var) (f r s : Ref)
    (settled : store.Renames image f r) (again : store.Renames image f s) : r = s := by
  induction settled generalizing s with
  | terminal f small =>
      cases again with
      | terminal => rfl
      | decision _ _ _ _ _ _ tests => exact absurd tests.1 (Nat.not_le_of_lt (Nat.lt_succ_of_le small))
  | decision f r node low high test tests _ _ literal chosen lowIH highIH =>
      cases again with
      | terminal _ small => exact absurd tests.1 (Nat.not_le_of_lt (Nat.lt_succ_of_le small))
      | decision _ _ other a b c otherTests otherLow otherHigh otherLiteral otherChosen =>
          obtain rfl := tests_node_unique store f node other tests otherTests
          obtain rfl := tests_ref_unique store sound _ test c literal otherLiteral
          rw [← lowIH a otherLow, ← highIH b otherHigh] at otherChosen
          exact chooses_unique store sound test high low r s chosen otherChosen

theorem renames_result (store : Store) (sound : store.Sound) (image : Var → Var) (f r : Ref)
    (settled : store.Renames image f r) : store.Live r := by
  induction settled with
  | terminal f small => exact .inl small
  | decision f r node low high test tests _ _ literal chosen lowIH highIH =>
      exact below_live store 0 r (chooses_below store sound 0 test high low r
        (live_below store sound test (.inr ⟨_, literal⟩)) (live_below store sound high highIH)
        (live_below store sound low lowIH) chosen)

theorem eval_literal (store : Store) (sound : store.Sound) (env : Var → Bool) (v : Var) (f : Ref)
    (tests : store.Tests f ⟨v, 0, 1⟩) : store.eval f env = env v := by
  simp [eval_tests store sound env f _ tests]

theorem renames_eval (store : Store) (sound : store.Sound) (image : Var → Var) (f r : Ref)
    (settled : store.Renames image f r) (env : Var → Bool) :
    store.eval r env = store.eval f (fun v => env (image v)) := by
  induction settled with
  | terminal f small => simp [small]
  | decision f r node low high test tests _ _ literal chosen lowIH highIH =>
      rw [chooses_eval store sound test high low r chosen env,
        eval_literal store sound env (image node.var) test literal,
        eval_tests store sound _ f node tests, lowIH, highIH]

def Settled (store : Store) (book : Book) : OpKey → Ref → Prop
  | .combine op f g, r => store.Combines op f g r
  | .negate f, r => store.Negates f r
  | .choose f g h, r => store.Chooses f g h r
  | .quantify q f set, r => store.Quantifies q f set r
  | .rename f id, r => ∃ image, book id = some image ∧ store.Renames image f r

theorem settled_extends (old new : Store) (grown : Extends old new) (book : Book) (key : OpKey)
    (r : Ref) (settled : old.Settled book key r) : new.Settled book key r := by
  cases key with
  | combine op f g => exact combines_extends old new grown op f g r settled
  | negate f => exact negates_extends old new grown f r settled
  | choose f g h => exact chooses_extends old new grown f g h r settled
  | quantify q f set => exact quantifies_extends old new grown q f set r settled
  | rename f id =>
      obtain ⟨image, named, renames⟩ := settled
      exact ⟨image, named, renames_extends old new grown image f r renames⟩

theorem settled_book (store : Store) (book later : Book)
    (kept : ∀ id image, book id = some image → later id = some image) (key : OpKey) (r : Ref)
    (settled : store.Settled book key r) : store.Settled later key r := by
  cases key with
  | rename f id =>
      obtain ⟨image, named, renames⟩ := settled
      exact ⟨image, kept id image named, renames⟩
  | combine | negate | choose | quantify => exact settled

theorem settled_live (store : Store) (sound : store.Sound) (book : Book) (key : OpKey) (r : Ref)
    (operands : ∀ f ∈ key.operands, store.Live f) (settled : store.Settled book key r) :
    store.Live r := by
  have below : ∀ f ∈ key.operands, store.Below 0 f := fun f member =>
    live_below store sound f (operands f member)
  cases key with
  | combine op f g =>
      exact below_live store 0 r (combines_below store sound op 0 f g r (below f (by simp [OpKey.operands]))
        (below g (by simp [OpKey.operands])) settled)
  | negate f =>
      exact below_live store 0 r (negates_below store sound 0 f r (below f (by simp [OpKey.operands])) settled)
  | choose f g h =>
      exact below_live store 0 r (chooses_below store sound 0 f g h r (below f (by simp [OpKey.operands]))
        (below g (by simp [OpKey.operands])) (below h (by simp [OpKey.operands])) settled)
  | quantify q f set =>
      exact below_live store 0 r
        (quantifies_below store sound q 0 f set r (below f (by simp [OpKey.operands])) settled)
  | rename f id =>
      obtain ⟨image, _, renames⟩ := settled
      exact renames_result store sound image f r renames

structure Coherent (store : Store) (book : Book) : Prop where
  sound : store.Sound
  memo : store.memo.Sound
  operands : ∀ key r, store.memo.find? key = some r → ∀ f ∈ key.operands, store.Live f
  settled : ∀ key r, store.memo.find? key = some r → store.Settled book key r

theorem coherent_book (store : Store) (book later : Book)
    (kept : ∀ id image, book id = some image → later id = some image) (coherent : store.Coherent book) :
    store.Coherent later :=
  ⟨coherent.sound, coherent.memo, coherent.operands, fun key r found =>
    settled_book store book later kept key r (coherent.settled key r found)⟩

end Store
end DomainDiagram
