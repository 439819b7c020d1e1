import DomainDiagram.Proofs.Interleaving
import Mathlib.Data.List.Perm.Subperm

set_option autoImplicit false

namespace DomainDiagram

-- The places of the bits of rows of the given widths: the column, with the most
-- significant one first, and the row.
def places (widths : List Nat) : List (Nat × Nat) :=
  widths.zipIdx.flatMap fun (width, row) => (List.range width).map (·, row)

def precedes (place other : Nat × Nat) : Bool :=
  decide (place.1 < other.1 ∨ (place.1 = other.1 ∧ place.2 < other.2))

-- How many variables go to the columns before this one, and in this column to
-- the rows before this one.
def dealtBefore (widths : List Nat) (column row : Nat) : Nat :=
  BlockTable.total (widths.map (min · column)) + (widths.take row).countP (column < ·)

theorem count_range (width bound : Nat) : (List.range width).countP (· < bound) = min width bound := by
  induction width with
  | zero => exact (Nat.zero_min bound).symm
  | succ width ih =>
      rw [List.range_succ, List.countP_append, ih, List.countP_singleton]
      by_cases less : width < bound
      · rw [if_pos (decide_eq_true less)]
        lia
      · rw [if_neg (by simpa using less)]
        lia

theorem count_row (width row column other : Nat) :
    ((List.range width).map (·, row)).countP (precedes · (column, other)) =
      min width column + if row < other ∧ column < width then 1 else 0 := by
  rw [List.countP_map]
  by_cases first : row < other
  · have same : (List.range width).countP ((precedes · (column, other)) ∘ (·, row)) =
        (List.range width).countP (· < column + 1) := by
      refine List.countP_congr fun c _ => ?_
      simp only [Function.comp, precedes, decide_eq_true_eq]
      lia
    rw [same, count_range]
    split <;> lia
  · have same : (List.range width).countP ((precedes · (column, other)) ∘ (·, row)) =
        (List.range width).countP (· < column) := by
      refine List.countP_congr fun c _ => ?_
      simp only [Function.comp, precedes, decide_eq_true_eq]
      lia
    rw [same, count_range, if_neg fun both => first both.1]
    rfl

theorem count_places (widths : List Nat) (start column row : Nat) :
    ((widths.zipIdx start).flatMap fun (width, row) => (List.range width).map (·, row)).countP
        (precedes · (column, row)) = dealtBefore widths column (row - start) := by
  induction widths generalizing start with
  | nil => simp [dealtBefore, BlockTable.total]
  | cons width rest ih =>
      rw [List.zipIdx_cons, List.flatMap_cons, List.countP_append, ih, count_row, dealtBefore, dealtBefore,
        List.map_cons, BlockTable.total_cons]
      by_cases later : start < row
      · obtain ⟨n, rfl⟩ : ∃ n, row = start + 1 + n := ⟨row - (start + 1), by lia⟩
        have place : start + 1 + n - start = n + 1 := by lia
        rw [place, Nat.add_sub_cancel_left, List.take_succ_cons, List.countP_cons]
        by_cases inside : column < width
        · rw [if_pos ⟨later, inside⟩, if_pos (decide_eq_true inside)]
          lia
        · rw [if_neg fun both => inside both.2, if_neg (by simpa using inside)]
          lia
      · have none : row - start = 0 := Nat.sub_eq_zero_of_le (Nat.le_of_not_lt later)
        have also : row - (start + 1) = 0 := by lia
        rw [none, also, if_neg fun both => later both.1, List.take_zero, List.take_zero]
        lia

theorem dealt_before_count (widths : List Nat) (column row : Nat) :
    dealtBefore widths column row = (places widths).countP (precedes · (column, row)) :=
  (count_places widths 0 column row).symm

theorem dealt_before_first (widths : List Nat) (row : Nat) :
    dealtBefore widths 0 row = (widths.take row).countP (0 < ·) := by
  have none : BlockTable.total (widths.map (min · 0)) = 0 := by
    induction widths with
    | nil => rfl
    | cons width rest ih => rw [List.map_cons, BlockTable.total_cons, ih, Nat.min_zero]
  rw [dealtBefore, none, Nat.zero_add]

theorem dealt_before_succ (widths : List Nat) (column row : Nat) :
    dealtBefore widths (column + 1) row = widths.countP (0 < ·) + dealtBefore (widths.map (· - 1)) column row := by
  have columns : BlockTable.total (widths.map (min · (column + 1))) =
      widths.countP (0 < ·) + BlockTable.total ((widths.map (· - 1)).map (min · column)) := by
    induction widths with
    | nil => rfl
    | cons width rest ih =>
        rw [List.map_cons, List.map_cons, List.map_cons, BlockTable.total_cons, BlockTable.total_cons, ih,
          List.countP_cons]
        by_cases some : 0 < width
        · rw [if_pos (decide_eq_true some)]
          lia
        · rw [if_neg (by simpa using some)]
          lia
  have rows : (widths.take row).countP (column + 1 < ·) = ((widths.map (· - 1)).take row).countP (column < ·) := by
    rw [← List.map_take, List.countP_map]
    refine List.countP_congr fun width _ => ?_
    simp only [Function.comp, decide_eq_true_eq]
    lia
  rw [dealtBefore, dealtBefore, columns, rows, Nat.add_assoc]

theorem deal_column_next (next : Var) (rows : List (Nat × List Var)) :
    (dealColumn next rows).1 = next + (rows.map (·.1)).countP (0 < ·) := by
  induction rows generalizing next with
  | nil => rfl
  | cons row rest ih =>
      obtain ⟨width, placed⟩ := row
      cases width with
      | zero => simp [dealColumn, ih]
      | succ width =>
          simp only [dealColumn, ih, List.map_cons, List.countP_cons]
          simp
          lia

theorem deal_column_row (next : Var) (rows : List (Nat × List Var)) (k width : Nat) (placed : List Var)
    (row : rows[k]? = some (width, placed)) : (dealColumn next rows).2[k]? = some (width - 1,
      if 0 < width then (next + ((rows.map (·.1)).take k).countP (0 < ·)) :: placed else placed) := by
  induction rows generalizing next k with
  | nil => exact nomatch row
  | cons first rest ih =>
      obtain ⟨other, before⟩ := first
      cases k with
      | zero =>
          obtain ⟨rfl, rfl⟩ := Prod.mk.inj (Option.some.inj row)
          cases other <;> simp [dealColumn]
      | succ k =>
          cases other with
          | zero => simpa [dealColumn] using ih next k row
          | succ other =>
              have later := ih (next + 1) k row
              simp only [dealColumn, List.getElem?_cons_succ, later, List.map_cons, List.take_succ_cons,
                List.countP_cons]
              simp [Nat.add_assoc, Nat.add_comm 1]

theorem deal_columns_row (columns : Nat) (next : Var) (rows : List (Nat × List Var)) (k width : Nat)
    (placed : List Var) (row : rows[k]? = some (width, placed)) (enough : width ≤ columns) :
    (dealColumns columns next rows)[k]?.map (·.2) =
      some (((List.range width).map fun c => next + dealtBefore (rows.map (·.1)) c k).reverse ++ placed) := by
  induction columns generalizing next rows width placed with
  | zero =>
      obtain rfl := Nat.le_zero.mp enough
      rw [dealColumns, row]
      rfl
  | succ columns ih =>
      have later := ih (dealColumn next rows).1 (dealColumn next rows).2 (width - 1) _
        (deal_column_row next rows k width placed row) (by lia)
      rw [dealColumns, later, deal_column_left, deal_column_next]
      cases width with
      | zero => rfl
      | succ width =>
          have onward : ∀ c, next + dealtBefore (rows.map (·.1)) (c + 1) k =
              next + (rows.map (·.1)).countP (0 < ·) + dealtBefore (rows.map (·.1 - 1)) c k := by
            intro c
            rw [dealt_before_succ, List.map_map, Nat.add_assoc]
            rfl
          simp only [Nat.add_sub_cancel, List.range_succ_eq_map, List.map_cons, List.map_map, List.reverse_cons,
            List.append_assoc, List.singleton_append, dealt_before_first, Function.comp_def, onward,
            if_pos (Nat.succ_pos width)]

theorem interleave_row (first : Var) (widths : List Nat) (k width : Nat) (row : widths[k]? = some width) :
    (interleave first widths)[k]? =
      some ((List.range width).map fun c => first + (places widths).countP (precedes · (c, k))) := by
  have same : (widths.map ((·, []) : Nat → Nat × List Var)).map (·.1) = widths := by
    rw [List.map_map]
    exact List.map_id widths
  have listed : (widths.map ((·, []) : Nat → Nat × List Var))[k]? = some (width, []) := by
    rw [List.getElem?_map, row]
    rfl
  have enough := (widest widths 0).2 width (List.mem_of_getElem? row)
  have dealt := deal_columns_row _ first _ k width [] listed enough
  rw [same, List.append_nil] at dealt
  have reversed : (fun row : Nat × List Var => row.2.reverse) = List.reverse ∘ (·.2) := rfl
  rw [interleave, List.getElem?_map, reversed, ← Option.map_map, dealt]
  simp only [Option.map_some, List.reverse_reverse, dealt_before_count]

theorem interleave_once (first : Var) (widths : List Nat) :
    (interleave first widths).flatten.Perm (List.range' first (BlockTable.total widths)) := by
  have dealt := interleave_interleaved first widths
  have once : (interleave first widths).flatten.Nodup :=
    List.nodup_flatten.mpr ⟨fun vars member => (dealt.ascending vars member).imp Nat.ne_of_lt, dealt.apart⟩
  have inside : (interleave first widths).flatten ⊆ List.range' first (BlockTable.total widths) := by
    intro v member
    obtain ⟨vars, listed, there⟩ := List.mem_flatten.mp member
    obtain ⟨above, below⟩ := dealt.inside vars listed v there
    exact List.mem_range'_1.mpr ⟨above, below⟩
  have length : (interleave first widths).flatten.length = BlockTable.total widths := by
    rw [List.length_flatten, dealt.lengths]
    rfl
  refine (List.subperm_of_subset once inside).perm_of_length_le (Nat.le_of_eq ?_)
  rw [List.length_range', length]

end DomainDiagram
