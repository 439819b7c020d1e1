import DomainDiagram.Proofs.Shapes
import Mathlib.Order.Bounds.Basic

set_option autoImplicit false

namespace DomainDiagram

theorem bit_width_positive (size : Nat) : 1 ≤ bitWidth size := Nat.le_add_left 1 _

theorem bit_width_least (size width : Nat) (positive : 1 ≤ width) (enough : size ≤ 2 ^ width) :
    bitWidth size ≤ width := by
  rw [bitWidth]
  by_cases one : size - 1 = 0
  · rw [one, Nat.log2_zero]
    exact positive
  · have less : size - 1 < 2 ^ width := by lia
    exact (Nat.log2_lt one).mpr less

theorem bit_width_mono (size larger : Nat) (grown : size ≤ larger) : bitWidth size ≤ bitWidth larger :=
  bit_width_least size _ (bit_width_positive larger) (Nat.le_trans grown (bit_width_fits larger))

theorem bit_width_mul (a b : Nat) : bitWidth (a * b) ≤ bitWidth a + bitWidth b := by
  have positive : 1 ≤ bitWidth a + bitWidth b := Nat.le_add_right_of_le (bit_width_positive a)
  refine bit_width_least (a * b) _ positive ?_
  rw [Nat.pow_add]
  exact Nat.mul_le_mul (bit_width_fits a) (bit_width_fits b)

-- A width on trial, and the number of values that it tells apart, in a
-- register of 128 bits.
structure Trial where
  width : Nat
  reach : BitVec 128

namespace Trial

def first : Trial := ⟨1, 2⟩

def widen (trial : Trial) : Trial := ⟨trial.width + 1, trial.reach <<< 1⟩

-- Widened by a bit at a time while values are left over, the trial comes to
-- this width, and no doubling on the way has lost a bit.
inductive Settles (size : Nat) : Trial → Nat → Prop where
  | enough (trial : Trial) (reached : size ≤ trial.reach.toNat) : Settles size trial trial.width
  | widen (trial : Trial) (width : Nat) (short : trial.reach.toNat < size)
      (fits : trial.widen.reach.toNat = 2 * trial.reach.toNat) (later : Settles size trial.widen width) :
      Settles size trial width

theorem settles_unique (size : Nat) (trial : Trial) (width other : Nat) (settles : Settles size trial width)
    (also : Settles size trial other) : width = other := by
  induction settles with
  | enough trial reached =>
      cases also with
      | enough => rfl
      | widen _ _ short => exact absurd reached (Nat.not_le_of_lt short)
  | widen trial width short _ _ ih =>
      cases also with
      | enough _ reached => exact absurd reached (Nat.not_le_of_lt short)
      | widen _ _ _ _ later => exact ih later

def ofWidth (width : Nat) : Trial := ⟨width, BitVec.ofNat 128 (2 ^ width)⟩

theorem of_width_reach (width : Nat) (small : width < 128) : (ofWidth width).reach.toNat = 2 ^ width := by
  rw [ofWidth, BitVec.toNat_ofNat]
  exact Nat.mod_eq_of_lt (Nat.pow_lt_pow_right (by decide) small)

theorem of_width_widen (width : Nat) : (ofWidth width).widen = ofWidth (width + 1) := by
  have doubled : BitVec.ofNat 128 (2 ^ width) <<< 1 = BitVec.ofNat 128 (2 ^ (width + 1)) := by
    apply BitVec.eq_of_toNat_eq
    rw [BitVec.toNat_shiftLeft, BitVec.toNat_ofNat, BitVec.toNat_ofNat, Nat.shiftLeft_eq, Nat.pow_one,
      Nat.mod_mul_mod, ← Nat.pow_succ]
  rw [widen, ofWidth, doubled, ofWidth]

theorem of_width_settles (size : Nat) (small : bitWidth size < 128) (width : Nat) (positive : 1 ≤ width)
    (below : width ≤ bitWidth size) : Settles size (ofWidth width) (bitWidth size) := by
  induction below using Nat.decreasingInduction with
  | self =>
      refine .enough (ofWidth (bitWidth size)) ?_
      rw [of_width_reach _ small]
      exact bit_width_fits size
  | of_succ width less ih =>
      have inside := Nat.lt_trans less small
      refine .widen _ _ ?_ ?_ ?_
      · rw [of_width_reach width inside]
        by_contra reached
        exact Nat.not_le_of_lt less (bit_width_least size width positive (Nat.le_of_not_lt reached))
      · rw [of_width_widen, of_width_reach (width + 1) (Nat.lt_of_le_of_lt less small), of_width_reach width inside,
          Nat.pow_succ, Nat.mul_comm]
      · rw [of_width_widen]
        exact ih (Nat.le_add_left 1 width)

end Trial

structure LeastWidth (size : Nat) : Prop where
  settles : ∀ width, Trial.first.Settles size width ↔ width = bitWidth size
  least : IsLeast {width | 1 ≤ width ∧ size ≤ 2 ^ width} (bitWidth size)
  most : bitWidth size ≤ 64
  monotone : ∀ larger, size ≤ larger → bitWidth size ≤ bitWidth larger
  product : ∀ other, bitWidth (size * other) ≤ bitWidth size + bitWidth other

theorem least_width (size : Nat) (fits : size < Block.sizeBound) : LeastWidth size := by
  have most : bitWidth size ≤ 64 := bit_width_least size 64 (by decide) (Nat.le_of_lt fits)
  have found : Trial.first.Settles size (bitWidth size) :=
    Trial.of_width_settles size (Nat.lt_of_le_of_lt most (by decide)) 1 (Nat.le_refl 1) (bit_width_positive size)
  constructor
  case settles =>
    intro width
    constructor
    · exact fun other => Trial.settles_unique size _ width _ other found
    · rintro rfl
      exact found
  case least =>
    refine ⟨⟨bit_width_positive size, bit_width_fits size⟩, ?_⟩
    rintro width ⟨positive, enough⟩
    exact bit_width_least size width positive enough
  case most => exact most
  case monotone => exact bit_width_mono size
  case product => exact bit_width_mul size

def Block.Ample (block : Block) : Prop := bitWidth block.size ≤ block.width

def BlockTable.Ample (table : BlockTable) : Prop :=
  ∀ (i : Nat) (block : Block), table.blocks[i]? = some block → block.Ample

def Workspace.Ample (ws : Workspace) : Prop :=
  ∀ (t : Nat) (table : BlockTable), ws.tables[t]? = some table → table.Ample

namespace Block

theorem ample_overlap (a b : Block) (index : Nat) (set : Ref) (left : a.Ample) (right : b.Ample) :
    Ample ⟨index, a.size * b.size, a.vars ++ b.vars, set⟩ := by
  rw [Ample, width, List.length_append]
  exact Nat.le_trans (bit_width_mul a.size b.size) (Nat.add_le_add left right)

end Block

theorem planned_ample (store : Store) (sizes : List Nat) (added : List Block)
    (planned : BlockTable.Planned store sizes (added.map fun block => (block.size, block.vars))) (block : Block)
    (member : block ∈ added) : block.Ample :=
  Nat.le_of_eq (planned.width _ (List.mem_map_of_mem member)).symm

-- New blocks are as wide as their sizes ask for, and an overlap is as wide as
-- both of its blocks.
theorem block_work_ample (entry : Entry) (m t : Nat) (store next : Store) (table later : BlockTable) (mark : Mark)
    (ample : table.Ample) (did : BlockWork entry m t store next table later mark) : later.Ample := by
  intro i block listed
  cases did with
  | extend sizes rows added planned same grown =>
      rcases grown_cases table later store next added grown i block listed with ⟨_, before⟩ | ⟨_, new, _, _⟩
      · exact ample i block before
      · exact planned_ample store sizes added (same ▸ planned) block (List.mem_of_getElem? new)
  | overlap left right a b set first second _ blocks _ =>
      rw [blocks] at listed
      rcases Workspace.push_cases table.blocks _ block i listed with ⟨_, rfl⟩ | before
      · exact Block.ample_overlap a b table.size set (ample left a first) (ample right b second)
      · exact ample i block before
  | teardown blocks _ => exact absurd listed (later.unlisted (congrArg BlockTable.blocks blocks) i block)
  | short _ blocks _ => exact absurd listed (later.unlisted (congrArg BlockTable.blocks blocks) i block)

theorem ample_change (book : Book) (ws : Workspace) (entry : Entry) (ample : ws.Ample) (change : Change book ws entry) :
    entry.reply.workspace.Ample := by
  intro t later tabled
  rcases change_tables book ws entry change t later tabled with
    ⟨before, _⟩ | ⟨_, rfl⟩ | ⟨m, store, next, table, _, _, old, _, did⟩
  · exact ample t later before
  · exact nofun
  · exact block_work_ample _ _ t store next table later _ (ample t table old) did

theorem Workspace.reachable_ample (ws : Workspace) (reachable : ws.Reachable) : ws.Ample := by
  apply reachable_induction Workspace.Ample nofun _ ws reachable
  intro ws command reachable ample
  obtain ⟨book, _, change⟩ := reachable_change ws reachable command
  exact ample_change book ws _ ample change

theorem widths_suffice :
    (∀ size, size < Block.sizeBound → LeastWidth size) ∧
    ∀ ws : Workspace, ws.Reachable → ∀ (t : Nat) (table : BlockTable), ws.tables[t]? = some table →
      ∀ (i : Nat) (block : Block), table.blocks[i]? = some block →
        bitWidth block.size ≤ block.width ∧ block.size ≤ 2 ^ block.width := by
  refine ⟨least_width, fun ws reachable t table tabled i block listed => ?_⟩
  have ample : bitWidth block.size ≤ block.width := ws.reachable_ample reachable t table tabled i block listed
  exact ⟨ample, Nat.le_trans (bit_width_fits block.size) (Nat.pow_le_pow_right Nat.two_pos ample)⟩

-- The overlap of two blocks has one variable more than its size asks for.
theorem overlapped_suffices :
    ∃ (ws : Workspace) (table : BlockTable) (block : Block),
      ws = Workspace.empty.run [.newStore {}, .newTable, .extend 0 0 [3, 5], .overlap 0 0 0 1] ∧
      ws.tables[0]? = some table ∧ table.blocks[2]? = some block ∧ block.size = 15 ∧ block.width = 5 ∧
      bitWidth 15 = 4 ∧ LeastWidth 15 ∧ bitWidth block.size ≤ block.width ∧ block.size ≤ 2 ^ block.width := by
  obtain ⟨ws, built⟩ : ∃ ws, ws = Workspace.empty.run
    [.newStore {}, .newTable, .extend 0 0 [3, 5], .overlap 0 0 0 1] := ⟨_, rfl⟩
  have shape : ((ws.tables[0]?).bind (·.blocks[2]?)).map (fun block => (block.size, block.width)) = some (15, 5) := by
    rw [built]
    decide +kernel
  obtain ⟨block, there, measures⟩ := Option.map_eq_some_iff.mp shape
  obtain ⟨table, tabled, listed⟩ := Option.bind_eq_some_iff.mp there
  obtain ⟨size, width⟩ := Prod.mk.inj measures
  exact ⟨ws, table, block, built, tabled, listed, size, width, by decide, widths_suffice.1 15 (by decide),
    widths_suffice.2 ws ⟨_, built.symm⟩ 0 table tabled 2 block listed⟩

end DomainDiagram
