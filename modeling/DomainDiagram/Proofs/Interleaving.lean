import DomainDiagram.BlockTable
import Mathlib.Data.List.Nodup

set_option autoImplicit false

namespace DomainDiagram

@[simp] theorem BlockTable.total_cons (width : Nat) (widths : List Nat) :
    total (width :: widths) = width + total widths := rfl

-- Rows in the middle of a deal, with the next variable to be dealt: each row
-- has got its variables in order, the last one first, and no two share one.
structure Dealt (first next : Var) (rows : List (Nat × List Var)) : Prop where
  descending : ∀ row ∈ rows, row.2.Pairwise (· > ·)
  inside : ∀ row ∈ rows, ∀ v ∈ row.2, first ≤ v ∧ v < next
  apart : rows.Pairwise fun a b => a.2.Disjoint b.2

theorem deal_column_left (next : Var) (rows : List (Nat × List Var)) :
    (dealColumn next rows).2.map (·.1) = rows.map (·.1 - 1) := by
  induction rows generalizing next with
  | nil => rfl
  | cons row rest ih =>
      obtain ⟨width, placed⟩ := row
      cases width with
      | zero => exact congrArg (0 :: ·) (ih next)
      | succ width => exact congrArg (width :: ·) (ih (next + 1))

theorem deal_column_width (next : Var) (rows : List (Nat × List Var)) :
    (dealColumn next rows).2.map (fun row => row.1 + row.2.length) =
      rows.map fun row => row.1 + row.2.length := by
  induction rows generalizing next with
  | nil => rfl
  | cons row rest ih =>
      obtain ⟨width, placed⟩ := row
      cases width with
      | zero => exact congrArg ((0 + placed.length) :: ·) (ih next)
      | succ width =>
          simp only [dealColumn, List.map_cons, ih, List.length_cons, Nat.succ_add_eq_add_succ]

theorem deal_column_total (next : Var) (rows : List (Nat × List Var)) :
    (dealColumn next rows).1 + BlockTable.total ((dealColumn next rows).2.map (·.1)) =
      next + BlockTable.total (rows.map (·.1)) := by
  induction rows generalizing next with
  | nil => rfl
  | cons row rest ih =>
      obtain ⟨width, placed⟩ := row
      cases width with
      | zero =>
          have rest := ih next
          simp only [dealColumn, List.map_cons, BlockTable.total_cons]
          lia
      | succ width =>
          have rest := ih (next + 1)
          simp only [dealColumn, List.map_cons, BlockTable.total_cons]
          lia

theorem deal_column_later (next : Var) (rows : List (Nat × List Var)) : next ≤ (dealColumn next rows).1 := by
  induction rows generalizing next with
  | nil => exact Nat.le_refl next
  | cons row rest ih =>
      obtain ⟨width, placed⟩ := row
      cases width with
      | zero => exact ih next
      | succ width => exact Nat.le_of_succ_le (ih (next + 1))

theorem deal_column_vars (next : Var) (rows : List (Nat × List Var)) :
    ∀ row ∈ (dealColumn next rows).2, ∀ v ∈ row.2,
      (∃ old ∈ rows, v ∈ old.2) ∨ (next ≤ v ∧ v < (dealColumn next rows).1) := by
  induction rows generalizing next with
  | nil => exact nofun
  | cons row rest ih =>
      obtain ⟨width, placed⟩ := row
      intro other member v inside
      cases width with
      | zero =>
          rcases List.mem_cons.mp member with rfl | later
          · exact .inl ⟨(0, placed), List.mem_cons_self, inside⟩
          · refine (ih next other later v inside).imp_left ?_
            exact fun ⟨old, listed, old_inside⟩ => ⟨old, List.mem_cons_of_mem _ listed, old_inside⟩
      | succ width =>
          have bound := deal_column_later (next + 1) rest
          have after : (dealColumn next ((width + 1, placed) :: rest)).1 = (dealColumn (next + 1) rest).1 := rfl
          rcases List.mem_cons.mp member with rfl | later
          · rcases List.mem_cons.mp inside with rfl | earlier
            · exact .inr ⟨Nat.le_refl v, by lia⟩
            · exact .inl ⟨(width + 1, placed), List.mem_cons_self, earlier⟩
          · rcases ih (next + 1) other later v inside with ⟨old, listed, old_inside⟩ | ⟨above, below⟩
            · exact .inl ⟨old, List.mem_cons_of_mem _ listed, old_inside⟩
            · exact .inr ⟨Nat.le_of_succ_le above, by lia⟩

theorem deal_column_dealt (first start next : Var) (rows : List (Nat × List Var)) (early : first ≤ start)
    (late : start ≤ next) (dealt : Dealt first start rows) :
    Dealt first (dealColumn next rows).1 (dealColumn next rows).2 := by
  induction rows generalizing next with
  | nil => exact ⟨nofun, nofun, .nil⟩
  | cons row rest ih =>
      obtain ⟨width, placed⟩ := row
      obtain ⟨apart, restApart⟩ := List.pairwise_cons.mp dealt.apart
      have restDealt : Dealt first start rest :=
        ⟨fun other member => dealt.descending other (List.mem_cons_of_mem _ member),
          fun other member => dealt.inside other (List.mem_cons_of_mem _ member), restApart⟩
      have old := dealt.inside (width, placed) List.mem_cons_self
      have down := dealt.descending (width, placed) List.mem_cons_self
      -- what was placed in this row goes to no other row, as new variables start later
      have fresh : ∀ next, start ≤ next → ∀ other ∈ (dealColumn next rest).2, placed.Disjoint other.2 := by
        intro next late other member v here there
        rcases deal_column_vars next rest other member v there with ⟨before, listed, inside⟩ | ⟨above, _⟩
        · exact apart before listed here inside
        · exact absurd (old v here).2 (Nat.not_lt_of_le (Nat.le_trans late above))
      cases width with
      | zero =>
          have bound := deal_column_later next rest
          have later := ih next late restDealt
          refine ⟨List.forall_mem_cons.mpr ⟨down, later.descending⟩,
            List.forall_mem_cons.mpr ⟨fun v inside => ?_, later.inside⟩,
            List.pairwise_cons.mpr ⟨fresh next late, later.apart⟩⟩
          exact ⟨(old v inside).1, Nat.lt_of_lt_of_le (old v inside).2 (Nat.le_trans late bound)⟩
      | succ width =>
          have bound := deal_column_later (next + 1) rest
          have further : start ≤ next + 1 := Nat.le_succ_of_le late
          have later := ih (next + 1) further restDealt
          refine ⟨List.forall_mem_cons.mpr ⟨?_, later.descending⟩,
            List.forall_mem_cons.mpr ⟨fun v inside => ?_, later.inside⟩,
            List.pairwise_cons.mpr ⟨fun other member => ?_, later.apart⟩⟩
          · refine List.pairwise_cons.mpr ⟨fun v inside => ?_, down⟩
            exact Nat.lt_of_lt_of_le (old v inside).2 late
          · rcases List.mem_cons.mp inside with rfl | before
            · exact ⟨Nat.le_trans early late, bound⟩
            · exact ⟨(old v before).1, Nat.lt_of_lt_of_le (old v before).2 (Nat.le_trans further bound)⟩
          · refine List.disjoint_cons_left.mpr ⟨fun there => ?_, fresh (next + 1) further other member⟩
            rcases deal_column_vars (next + 1) rest other member next there with
              ⟨before, listed, inside⟩ | ⟨above, _⟩
            · have less := (restDealt.inside before listed next inside).2
              exact absurd less (Nat.not_lt_of_le late)
            · exact absurd above (Nat.not_succ_le_self next)

theorem deal_columns_dealt (columns : Nat) (first next : Var) (rows : List (Nat × List Var))
    (enough : ∀ row ∈ rows, row.1 ≤ columns) (early : first ≤ next) (dealt : Dealt first next rows) :
    Dealt first (next + BlockTable.total (rows.map (·.1))) (dealColumns columns next rows) ∧
      (dealColumns columns next rows).map (·.2.length) = rows.map fun row => row.1 + row.2.length := by
  induction columns generalizing next rows with
  | zero =>
      have done : ∀ row ∈ rows, row.1 = 0 := fun row member => Nat.le_zero.mp (enough row member)
      refine ⟨⟨dealt.descending, fun row member v inside => ?_, dealt.apart⟩, ?_⟩
      · obtain ⟨above, below⟩ := dealt.inside row member v inside
        exact ⟨above, Nat.lt_of_lt_of_le below (Nat.le_add_right _ _)⟩
      · refine List.map_congr_left fun row member => ?_
        rw [done row member, Nat.zero_add]
  | succ columns ih =>
      have fewer : ∀ row ∈ (dealColumn next rows).2, row.1 ≤ columns := by
        intro row member
        have listed : row.1 ∈ rows.map (·.1 - 1) :=
          deal_column_left next rows ▸ List.mem_map_of_mem member
        obtain ⟨old, oldMember, less⟩ := List.mem_map.mp listed
        have bound := enough old oldMember
        lia
      obtain ⟨after, lengths⟩ := ih (dealColumn next rows).1 (dealColumn next rows).2 fewer
        (Nat.le_trans early (deal_column_later next rows))
        (deal_column_dealt first next next rows early (Nat.le_refl next) dealt)
      rw [deal_column_total] at after
      rw [deal_column_width] at lengths
      exact ⟨after, lengths⟩

theorem widest (widths : List Nat) (least : Nat) :
    least ≤ widths.foldl max least ∧ ∀ width ∈ widths, width ≤ widths.foldl max least := by
  induction widths generalizing least with
  | nil => exact ⟨Nat.le_refl least, nofun⟩
  | cons width rest ih =>
      obtain ⟨start, others⟩ := ih (max least width)
      refine ⟨Nat.le_trans (Nat.le_max_left ..) start, List.forall_mem_cons.mpr ⟨?_, others⟩⟩
      exact Nat.le_trans (Nat.le_max_right ..) start

structure Interleaved (first : Var) (widths : List Nat) (rows : List (List Var)) : Prop where
  lengths : rows.map (·.length) = widths
  ascending : ∀ vars ∈ rows, vars.Pairwise (· < ·)
  inside : ∀ vars ∈ rows, ∀ v ∈ vars, first ≤ v ∧ v < first + BlockTable.total widths
  apart : rows.Pairwise List.Disjoint

theorem interleave_interleaved (first : Var) (widths : List Nat) :
    Interleaved first widths (interleave first widths) := by
  have start : Dealt first first (widths.map (·, [])) := by
    refine ⟨fun row member => ?_, fun row member => ?_, List.pairwise_map.mpr ?_⟩
    · obtain ⟨width, _, rfl⟩ := List.mem_map.mp member
      exact .nil
    · obtain ⟨width, _, rfl⟩ := List.mem_map.mp member
      exact nofun
    · exact List.pairwise_of_forall fun _ _ => List.disjoint_nil_left _
  have enough : ∀ row ∈ widths.map ((·, []) : Nat → Nat × List Var), row.1 ≤ widths.foldl max 0 := by
    intro row member
    obtain ⟨width, listed, rfl⟩ := List.mem_map.mp member
    exact (widest widths 0).2 width listed
  obtain ⟨dealt, lengths⟩ := deal_columns_dealt _ first first _ enough (Nat.le_refl first) start
  have same : (widths.map ((·, []) : Nat → Nat × List Var)).map (·.1) = widths := by
    rw [List.map_map]
    exact List.map_id widths
  rw [same] at dealt
  constructor
  case lengths =>
    simp only [interleave, List.map_map, Function.comp_def, List.length_reverse]
    refine lengths.trans ?_
    rw [List.map_map]
    exact List.map_id widths
  case ascending =>
    intro vars member
    obtain ⟨row, listed, rfl⟩ := List.mem_map.mp member
    exact List.pairwise_reverse.mpr (dealt.descending row listed)
  case inside =>
    intro vars member v inside
    obtain ⟨row, listed, rfl⟩ := List.mem_map.mp member
    exact dealt.inside row listed v (List.mem_reverse.mp inside)
  case apart =>
    refine List.pairwise_map.mpr (dealt.apart.imp fun apart v here there => ?_)
    exact apart (List.mem_reverse.mp here) (List.mem_reverse.mp there)

end DomainDiagram
