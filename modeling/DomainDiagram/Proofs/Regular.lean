import DomainDiagram.Proofs.Quantifying
import DomainDiagram.Proofs.Renaming
import DomainDiagram.Construction
import DomainDiagram.Hold

set_option autoImplicit false

namespace DomainDiagram

namespace Store

structure Follows (old new : Store) : Prop where
  id : new.id = old.id
  config : new.config = old.config
  grown : Extends old new

theorem follows_refl (store : Store) : Follows store store := ⟨rfl, rfl, extends_refl store⟩

theorem follows_trans (a b c : Store) (ab : Follows a b) (bc : Follows b c) : Follows a c :=
  ⟨bc.id.trans ab.id, bc.config.trans ab.config, extends_trans a b c ab.grown bc.grown⟩

theorem advances_follows (book : Book) (old new : Store) (advanced : Advances book old new) :
    Follows old new :=
  ⟨advanced.built.id, advanced.built.config, advances_extends book old new advanced⟩

end Store

namespace Action

open Store

-- Done or broken off, the action keeps the nodes that are there and a table
-- of results that can be relied on, and does not show what is in that table.
structure Regular {ε α : Type} (book : Book) (act : EStateM ε Store α) : Prop where
  ends : ∀ store, store.Coherent book →
    Ends act store (fun _ next => Follows store next ∧ next.Coherent book)
      (fun _ next => Follows store next ∧ next.Coherent book)
  same : ∀ left right : Store, left.bare = right.bare → left.Coherent book → right.Coherent book →
    bare (act left) = bare (act right)

theorem regular_pure {ε α : Type} (book : Book) (a : α) : Regular (ε := ε) book (pure a) :=
  ⟨fun store coherent => ⟨follows_refl store, coherent⟩,
    fun _ _ stores _ _ => congrArg (EStateM.Result.ok a) stores⟩

theorem regular_bind {ε α β : Type} (book : Book) (act : EStateM ε Store α)
    (next : α → EStateM ε Store β) (first : Regular book act) (rest : ∀ a, Regular book (next a)) :
    Regular book (act >>= next) := by
  refine ⟨fun store coherent => ?_, fun left right stores leftCoherent rightCoherent => ?_⟩
  · have onward : ∀ later final, Follows store later ∧ later.Coherent book →
        Follows later final ∧ final.Coherent book → Follows store final ∧ final.Coherent book :=
      fun later final known further => ⟨follows_trans store later final known.1 further.1, further.2⟩
    refine ends_bind act next store _ _ _ (first.ends store coherent) fun a later known => ?_
    exact ends_mono _ later _ _ _ _ ((rest a).ends later known.2) (fun _ final => onward later final known)
      (fun _ final => onward later final known)
  · refine bare_bind act next left right (first.same left right stores leftCoherent rightCoherent) ?_
    intro a leftNext rightNext leftDone rightDone alike
    have leftKnown := ends_ok act left leftNext a _ _ (first.ends left leftCoherent) leftDone
    have rightKnown := ends_ok act right rightNext a _ _ (first.ends right rightCoherent) rightDone
    exact (rest a).same leftNext rightNext alike leftKnown.2 rightKnown.2

theorem regular_composes {ε : Type} (book : Book) : Composes (ε := ε) (Regular book) :=
  ⟨regular_pure book, regular_bind book⟩

theorem regular_advance {α : Type} (book : Book) (act : Action α) (holds : Store → α → Store → Prop)
    (failed : Store → Prop)
    (ends : ∀ store, store.Coherent book →
      Ends act store (fun a next => Advances book store next ∧ holds store a next)
        (fun _ next => Advances book store next ∧ failed store))
    (same : ∀ left right : Store, left.bare = right.bare → left.Coherent book → right.Coherent book →
      bare (act left) = bare (act right)) : Regular book act := by
  refine ⟨fun store coherent => ?_, same⟩
  exact ends_mono act store _ _ _ _ (ends store coherent)
    (fun a next known => ⟨advances_follows book store next known.1, known.1.coherent⟩)
    (fun fault next known => ⟨advances_follows book store next known.1, known.1.coherent⟩)

theorem regular_branch (book : Book) (v : Var) (low high : Ref) : Regular book (branch v low high) :=
  regular_advance book _ (fun _ r next => next.Made v low high r) (fun store => ¬ store.Admits v low high)
    (fun store coherent => advance_branch book store coherent v low high)
    (fun left right stores _ _ => bare_branch left right stores v low high)

theorem regular_literal (book : Book) (v : Var) (value : Bool) : Regular book (literal v value) := by
  cases value with
  | true => exact literal_true v ▸ regular_branch book v 0 1
  | false => exact literal_false v ▸ regular_branch book v 1 0

theorem regular_combine (book : Book) (op : Connective) (f g : Ref) : Regular book (combine op f g) :=
  regular_advance book _ (fun _ r next => next.Combines op f g r) (fun store => ¬ ∀ h ∈ [f, g], store.Live h)
    (fun store coherent => advance_combine book op store coherent f g)
    (fun left right stores leftCoherent rightCoherent =>
      bare_combine book op left right stores leftCoherent rightCoherent f g)

theorem regular_negate (book : Book) (f : Ref) : Regular book (negate f) :=
  regular_advance book _ (fun _ r next => next.Negates f r) (fun store => ¬ ∀ h ∈ [f], store.Live h)
    (fun store coherent => advance_negate book store coherent f)
    (fun left right stores leftCoherent rightCoherent =>
      bare_negate book left right stores leftCoherent rightCoherent f)

theorem regular_choose (book : Book) (f g h : Ref) : Regular book (choose f g h) :=
  regular_advance book _ (fun _ r next => next.Chooses f g h r)
    (fun store => ¬ ∀ a ∈ [f, g, h], store.Live a)
    (fun store coherent => advance_choose book store coherent f g h)
    (fun left right stores leftCoherent rightCoherent =>
      bare_choose book left right stores leftCoherent rightCoherent f g h)

theorem regular_quantify (book : Book) (q : Quantifier) (f set : Ref) :
    Regular book (quantify q f set) :=
  regular_advance book _ (fun _ r next => next.Quantifies q f set r)
    (fun store => ¬ ∀ h ∈ [f, set], store.Live h)
    (fun store coherent => advance_quantify book q store coherent f set)
    (fun left right stores leftCoherent rightCoherent =>
      bare_quantify book q left right stores leftCoherent rightCoherent f set)

theorem regular_rename (book : Book) (names : Renaming) (named : book names.id = some names.image)
    (f : Ref) : Regular book (rename names f) := by
  cases empty : names.isEmpty with
  | true => exact rename_empty names f empty ▸ regular_pure book f
  | false =>
      exact regular_advance book _ (fun _ r next => next.Renames names.image f r)
        (fun store => ¬ store.Maps names.image f)
        (fun store coherent => advance_rename book names named store coherent f empty)
        (fun left right stores leftCoherent rightCoherent =>
          bare_rename book names named left right stores leftCoherent rightCoherent f)

theorem regular_conjunction (book : Book) (fs : List Ref) : Regular book (conjunction fs) :=
  composes_foldlM (regular_composes book) (combine .and) (regular_combine book .and) fs 1

theorem regular_disjunction (book : Book) (fs : List Ref) : Regular book (disjunction fs) :=
  composes_foldlM (regular_composes book) (combine .or) (regular_combine book .or) fs 0

theorem regular_cube (book : Book) (vars : List Var) : Regular book (cube vars) :=
  composes_foldrM (regular_composes book) (fun v rest => branch v 0 rest) (fun v rest => regular_branch book v 0 rest)
    (Var.sorted vars) 1

theorem regular_construction (book : Book) (construction : Construction) :
    Regular book construction.run := by
  cases construction with
  | literal v value => exact regular_literal book v value
  | branch v low high => exact regular_branch book v low high
  | combine op f g => exact regular_combine book op f g
  | negate f => exact regular_negate book f
  | choose f g h => exact regular_choose book f g h
  | conjunction fs => exact regular_conjunction book fs
  | disjunction fs => exact regular_disjunction book fs
  | cube vars => exact regular_cube book vars
  | quantify q f set => exact regular_quantify book q f set

end Action
end DomainDiagram
