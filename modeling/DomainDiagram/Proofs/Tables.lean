import DomainDiagram.Proofs.Holding
import DomainDiagram.Encoding

set_option autoImplicit false

namespace DomainDiagram

namespace Action

open Store

theorem ends_perform {α : Type} (act : Action α) (store : Store) (done : α → Store → Prop)
    (broken : Failure → Store → Prop) (known : Ends act store done fun fault => broken (.broken fault)) :
    Ends (Request.perform act) store done broken := by
  unfold Ends at known ⊢
  unfold Request.perform
  cases outcome : act store <;> simpa only [outcome] using known

theorem same_perform {α : Type} (act : Action α) (left right : Store)
    (same : bare (act left) = bare (act right)) :
    bare (Request.perform act left) = bare (Request.perform act right) := by
  unfold Request.perform
  rcases bare_cases _ _ same with ⟨a, leftNext, rightNext, leftDone, rightDone, alike⟩ |
    ⟨fault, leftNext, rightNext, leftDone, rightDone, alike⟩
  · simp only [leftDone, rightDone, bare, alike]
  · simp only [leftDone, rightDone, bare, alike]

theorem regular_perform {α : Type} (book : Book) (act : Action α) (regular : Regular book act) :
    Regular book (Request.perform act) :=
  ⟨fun store coherent => ends_perform act store _ _ (regular.ends store coherent),
    fun left right stores leftCoherent rightCoherent =>
      same_perform act left right (regular.same left right stores leftCoherent rightCoherent)⟩

theorem regular_after_check {α β : Type} (book : Book) (check : Store → Except Refusal α)
    (act : α → Action β) (blind : ∀ store : Store, check store.bare = check store)
    (regular : ∀ a, Regular book (act a)) : Regular book (Request.afterCheck check act) := by
  have performed := fun a => regular_perform book (act a) (regular a)
  constructor
  case ends =>
    intro store coherent
    unfold Ends Request.afterCheck
    cases checked : check store with
    | ok a => exact (performed a).ends store coherent
    | error refusal => exact ⟨follows_refl store, coherent⟩
  case same =>
    intro left right stores leftCoherent rightCoherent
    have agree := bare_blind check blind left right stores
    unfold Request.afterCheck
    rw [← agree]
    cases checked : check left with
    | ok a => exact (performed a).same left right stores leftCoherent rightCoherent
    | error refusal => exact congrArg (EStateM.Result.error _) stores

theorem regular_observe {ε α : Type} (book : Book) (look : Store → α)
    (blind : ∀ store : Store, look store.bare = look store) :
    Regular (ε := ε) book (do return look (← get)) := by
  constructor
  case ends => exact fun store coherent => ⟨follows_refl store, coherent⟩
  case same =>
    intro left right stores _ _
    have agree := bare_blind look blind left right stores
    exact congrArg₂ EStateM.Result.ok agree stores

theorem regular_new_vars (book : Book) (n : Nat) : Regular book (Request.newVars n) := by
  refine regular_after_check book _ _ (fun store => rfl) fun first => ?_
  exact regular_bind book _ _ (regular_grow book n) fun _ => regular_pure book first

theorem regular_make_block (book : Book) (index size : Nat) (vars : List Var) :
    Regular book (BlockTable.makeBlock index size vars) := by
  refine regular_bind book _ _ (regular_cube book vars) fun varset => ?_
  exact regular_bind book _ _ (regular_hold book varset) fun held => regular_pure book _

theorem regular_append (book : Book) (table : BlockTable) (rows : List (Nat × List Var)) :
    Regular book (table.append rows) := by
  unfold BlockTable.append
  split
  · exact regular_pure book table
  · refine regular_bind book _ _ (regular_grow book _) fun _ => ?_
    refine regular_bind book _ _ (composes_mapM (regular_composes book) _ (fun row => ?_) _) fun blocks => ?_
    · obtain ⟨⟨size, vars⟩, index⟩ := row
      exact regular_make_block book index size vars
    · let owned : Store → BlockTable := fun store => ⟨table.blocks ++ blocks.toArray, some store.id⟩
      exact regular_observe book owned fun _ => rfl

theorem regular_extend (book : Book) (table : BlockTable) (sizes : List Nat) :
    Regular book (table.extend sizes) :=
  regular_after_check book _ _ (fun _ => rfl) (regular_append book table)

theorem regular_overlap (book : Book) (table : BlockTable) (left right : Nat) :
    Regular book (table.overlap left right) := by
  refine regular_after_check book _ _ (fun store => rfl) fun blocks => ?_
  refine regular_bind book _ _ (regular_combine book .and _ _) fun varset => ?_
  exact regular_bind book _ _ (regular_hold book varset) fun held => regular_pure book _

theorem regular_release_all (book : Book) (blocks : List Block) :
    Regular book (BlockTable.releaseAll blocks) := by
  induction blocks with
  | nil => exact regular_pure book ()
  | cons block rest ih => exact regular_bind book _ _ (regular_release book block.varset) fun _ => ih

theorem regular_spell (book : Book) (bits : List Var) (value : Nat) (done : Ref) :
    Regular book (spell bits value done) := by
  induction bits generalizing value done with
  | nil => exact regular_pure book done
  | cons v rest ih =>
      refine regular_bind book _ _ (regular_hold book done) fun _ => ?_
      refine regular_bind book _ _ (regular_literal book v _) fun bit => ?_
      refine regular_bind book _ _ (regular_combine book .and bit done) fun next => ?_
      exact regular_bind book _ _ (regular_release book done) fun _ => ih (value / 2) next

theorem regular_at_most (book : Book) (bits : List Var) (value : Nat) (done : Ref) :
    Regular book (atMost bits value done) := by
  induction bits generalizing value done with
  | nil => exact regular_bind book _ _ (regular_release book done) fun _ => regular_pure book done
  | cons v rest ih =>
      refine regular_bind book _ _ (regular_literal book v false) fun bit => ?_
      refine regular_bind book _ _ (regular_combine book _ bit done) fun next => ?_
      refine regular_bind book _ _ (regular_hold book next) fun _ => ?_
      exact regular_bind book _ _ (regular_release book done) fun _ => ih (value / 2) next

theorem regular_alike (book : Book) (pairs : List (Var × Var)) (done : Ref) :
    Regular book (alike pairs done) := by
  induction pairs generalizing done with
  | nil => exact regular_bind book _ _ (regular_release book done) fun _ => regular_pure book done
  | cons pair rest ih =>
      refine regular_bind book _ _ (regular_literal book pair.1 true) fun left => ?_
      refine regular_bind book _ _ (regular_literal book pair.2 true) fun right => ?_
      refine regular_bind book _ _ (regular_combine book .biimp left right) fun bit => ?_
      refine regular_bind book _ _ (regular_hold book bit) fun _ => ?_
      refine regular_bind book _ _ (regular_combine book .and done bit) fun next => ?_
      refine regular_bind book _ _ (regular_hold book next) fun _ => ?_
      refine regular_bind book _ _ (regular_release book bit) fun _ => ?_
      exact regular_bind book _ _ (regular_release book done) fun _ => ih next

theorem regular_union (book : Book) (sets : List Ref) (done : Ref) : Regular book (union sets done) := by
  induction sets generalizing done with
  | nil => exact regular_pure book done
  | cons set rest ih =>
      refine regular_bind book _ _ (regular_hold book done) fun _ => ?_
      refine regular_bind book _ _ (regular_combine book .and set done) fun next => ?_
      exact regular_bind book _ _ (regular_release book done) fun _ => ih next

theorem regular_encoding (book : Book) (table : BlockTable) (encoding : Encoding) :
    Regular book (encoding.run table) := by
  cases encoding with
  | value index n =>
      exact regular_after_check book _ _ (fun store => rfl) fun block => regular_spell book block.bits n 1
  | legal index =>
      exact regular_after_check book _ _ (fun store => rfl) fun block => regular_at_most book block.bits _ 1
  | equal left right =>
      refine regular_after_check book _ _ (fun store => rfl) fun blocks => ?_
      exact regular_bind book _ _ (regular_hold book 1) fun start => regular_alike book _ start
  | varset indices =>
      exact regular_after_check book _ _ (fun store => rfl) fun sets => regular_union book sets 1

end Action

namespace BlockTable

open Store DomainDiagram.Action

theorem teardown_kept (book : Book) (table : BlockTable) (store : Store) (coherent : store.Coherent book) :
    Follows store (table.teardown store).2.2 ∧ (table.teardown store).2.2.Coherent book := by
  unfold teardown
  cases table.checkOwner store with
  | error refusal => exact ⟨follows_refl store, coherent⟩
  | ok _ =>
      have known := (regular_release_all book table.blocks.toList).ends store coherent
      unfold Ends at known
      cases outcome : releaseAll table.blocks.toList store <;> simpa only [outcome] using known

theorem teardown_same (book : Book) (table : BlockTable) (left right : Store)
    (stores : left.bare = right.bare) (leftCoherent : left.Coherent book)
    (rightCoherent : right.Coherent book) :
    (table.teardown left).1 = (table.teardown right).1 ∧
      (table.teardown left).2.1 = (table.teardown right).2.1 ∧
      (table.teardown left).2.2.bare = (table.teardown right).2.2.bare := by
  have owner := bare_blind table.checkOwner (fun store => rfl) left right stores
  have same := (regular_release_all book table.blocks.toList).same left right stores leftCoherent rightCoherent
  unfold teardown
  rw [← owner]
  cases table.checkOwner left with
  | error refusal => exact ⟨rfl, rfl, stores⟩
  | ok _ =>
      rcases bare_cases _ _ same with ⟨_, leftNext, rightNext, leftDone, rightDone, alike⟩ |
        ⟨fault, leftNext, rightNext, leftDone, rightDone, alike⟩
      · rw [leftDone, rightDone]
        exact ⟨rfl, rfl, alike⟩
      · rw [leftDone, rightDone]
        exact ⟨rfl, rfl, alike⟩

end BlockTable
end DomainDiagram
