import DomainDiagram.Proofs.Foreign
import DomainDiagram.Proofs.Printed
import DomainDiagram.Proofs.Spelling
import Mathlib.Algebra.GroupWithZero.Nat

set_option autoImplicit false

namespace DomainDiagram

namespace Store

def Pins (store : Store) (f : Ref) (vars : List Var) (env : Var → Bool) : Prop :=
  ∀ other, store.eval f other = true ↔ ∀ v ∈ vars, other v = env v

theorem pins_self (store : Store) (f : Ref) (vars : List Var) (env : Var → Bool) (pins : store.Pins f vars env) :
    store.eval f env = true := (pins env).mpr fun _ _ => rfl

theorem pins_nonzero (store : Store) (f : Ref) (vars : List Var) (env : Var → Bool) (pins : store.Pins f vars env) :
    f.isZero = false := by
  refine beq_false_of_ne ?_
  rintro rfl
  have here := pins_self store 0 vars env pins
  simp at here

theorem pins_nil (store : Store) (sound : store.Sound) (f : Ref) (live : store.Live f) (env : Var → Bool)
    (pins : store.Pins f [] env) : f = 1 := by
  refine (eval_injective store sound f 1 live (.inl (Nat.le_refl 1))).mp fun other => ?_
  rw [(pins other).mpr nofun, eval_one]

theorem pins_sorted (store : Store) (f : Ref) (vars : List Var) (env : Var → Bool) (pins : store.Pins f vars env) :
    store.Pins f (Var.sorted vars) env := fun other =>
  (pins other).trans (forall_congr' fun v => by rw [Var.sorted_mem])

section

variable (store : Store) (sound : store.Sound) (f : Ref) (v : Var) (rest : List Var) (env : Var → Bool)
  (ascending : (v :: rest).Pairwise (· < ·)) (pins : store.Pins f (v :: rest) env)

include pins

theorem pins_against (other : Var → Bool) (against : other v ≠ env v) : store.eval f other = false :=
  Bool.eq_false_iff.mpr fun still => against ((pins other).mp still v List.mem_cons_self)

include sound ascending

theorem pins_root (live : store.Live f) : ∃ low high, store.Tests f ⟨v, low, high⟩ := by
  have here := pins_self store f _ env pins
  have flipped := pins_against store f v rest env pins (Function.update env v (!env v)) (by simp)
  rcases live with small | ⟨⟨w, low, high⟩, tests⟩
  · simp only [eval_terminal, small] at here flipped
    simp [here] at flipped
  · rcases Nat.lt_trichotomy v w with less | rfl | more
    · rw [eval_update store sound env v _ f (.inr ⟨_, tests, less⟩), here] at flipped
      exact nomatch flipped
    · exact ⟨low, high, tests⟩
    · -- a root above them all is not among the variables, and would make no difference
      have absent : w ∉ v :: rest := by
        intro member
        rcases List.mem_cons.mp member with rfl | later
        · exact Nat.lt_irrefl w more
        · exact Nat.lt_asymm more ((List.pairwise_cons.mp ascending).1 w later)
      have unread : ∀ other value, store.eval f (Function.update other w value) = store.eval f other := by
        intro other value
        rw [Bool.eq_iff_iff, pins, pins]
        refine forall₂_congr fun u member => ?_
        have different : u ≠ w := fun same => absent (same ▸ member)
        rw [Function.update_of_ne different]
      refine absurd ?_ (sound.irredundant f _ tests)
      refine (eval_injective store sound low high (low_live store sound f _ tests)
        (high_live store sound f _ tests)).mp fun other => ?_
      rw [← splits_low store sound other w f low high (.inr tests),
        ← splits_high store sound other w f low high (.inr tests), unread, unread]

theorem pins_sides (live : store.Live f) : ∃ low high, store.Tests f ⟨v, low, high⟩ ∧
    store.Pins (if env v then high else low) rest env ∧ (if env v then low else high) = 0 := by
  obtain ⟨low, high, tests⟩ := pins_root store sound f v rest env ascending pins live
  have fresh : v ∉ rest := fun member => Nat.lt_irrefl v ((List.pairwise_cons.mp ascending).1 v member)
  have side : ∀ value other, store.eval (if value then high else low) other =
      store.eval f (Function.update other v value) := by
    intro value other
    cases value with
    | true => exact (splits_high store sound other v f low high (.inr tests)).symm
    | false => exact (splits_low store sound other v f low high (.inr tests)).symm
  refine ⟨low, high, tests, fun other => ?_, ?_⟩
  · rw [side, pins, List.forall_mem_cons, Function.update_self]
    refine (and_iff_right rfl).trans (forall₂_congr fun w member => ?_)
    have different : w ≠ v := fun same => fresh (same ▸ member)
    rw [Function.update_of_ne different]
  · have false : ∀ other, store.eval (if !env v then high else low) other = false := by
      intro other
      rw [side]
      exact pins_against store f v rest env pins _ (by simp)
    have sideLive : store.Live (if !env v then high else low) := by
      cases env v with
      | true => exact low_live store sound f _ tests
      | false => exact high_live store sound f _ tests
    have zero : (if !env v then high else low) = 0 := by
      refine (eval_injective store sound _ 0 sideLive (.inl (Nat.zero_le 1))).mp fun other => ?_
      rw [false, eval_zero]
    rw [← zero]
    cases env v <;> rfl

end

theorem model_from_pins (store : Store) (sound : store.Sound) (vars : List Var) (env : Var → Bool)
    (ascending : vars.Pairwise (· < ·)) (steps u : Nat) (f : Ref) (below : store.Below u f) (inside : u ≤ store.numVars)
    (enough : store.numVars < u + steps) (pins : store.Pins f vars env) :
    store.modelFrom steps f = .ok (vars.map fun v => (v, env v)) := by
  induction vars generalizing steps u f with
  | nil =>
      obtain rfl := pins_nil store sound f (below_live store u f below) env pins
      cases steps with
      | zero => omega
      | succ steps => rfl
  | cons v rest ih =>
      obtain ⟨low, high, tests, side, other⟩ :=
        pins_sides store sound f v rest env ascending pins (below_live store u f below)
      have less : u < v := below_tests store u f _ below tests
      have bound : v ≤ store.numVars := (sound.allocated f _ tests).2
      have later := (List.pairwise_cons.mp ascending).2
      obtain ⟨lowBelow, highBelow⟩ := sound.ordered f _ tests
      have undecided : f.isOne = false := beq_false_of_ne (Nat.ne_of_gt tests.1)
      cases steps with
      | zero => lia
      | succ steps =>
          rw [modelFrom, undecided, node_tests store f _ tests]
          cases value : env v with
          | true =>
              simp only [value, if_true] at side other
              have nonzero := pins_nonzero store high rest env side
              have onward := ih later steps v high highBelow bound (by lia) side
              simp only [bind, Except.bind, nonzero, onward, List.map_cons, value]
              rfl
          | false =>
              simp only [value, Bool.false_eq_true, if_false] at side other
              have onward := ih later steps v low lowBelow bound (by lia) side
              subst other
              simp only [bind, Except.bind, onward, List.map_cons, value]
              rfl

theorem model_pins (store : Store) (sound : store.Sound) (f : Ref) (live : store.Live f) (vars : List Var)
    (env : Var → Bool) (pins : store.Pins f vars env) :
    store.model f = .ok (some ((Var.sorted vars).map fun v => (v, env v))) := by
  have picked := model_from_pins store sound (Var.sorted vars) env (Var.sorted_ascending vars) store.steps 0 f
    (live_below store sound f live) (Nat.zero_le _) (by rw [steps]; omega) (pins_sorted store f vars env pins)
  rw [model, pins_nonzero store f vars env pins, picked]
  rfl

end Store

theorem spelt_same (bits : List Var) (env other : Var → Bool) :
    spelt bits env = spelt bits other ↔ ∀ v ∈ bits, env v = other v := by
  refine ⟨fun same v member => ?_, spelt_agree bits env other⟩
  obtain ⟨i, here⟩ := List.mem_iff_getElem?.mp member
  rw [← spelt_bit bits env i v here, ← spelt_bit bits other i v here, same]

theorem spelt_sum (bits : List Var) (env : Var → Bool) (first : Nat) :
    ((bits.zipIdx first).map fun (v, i) => (env v).toNat * 2 ^ i).sum = spelt bits env * 2 ^ first := by
  induction bits generalizing first with
  | nil => exact (Nat.zero_mul _).symm
  | cons v rest ih =>
      rw [List.zipIdx_cons, List.map_cons, List.sum_cons, ih, spelt, Nat.add_mul, Nat.pow_succ', Nat.mul_left_comm,
        Nat.mul_assoc 2]

theorem spelt_none (bits : List Var) : spelt bits (fun _ => false) = 0 := by
  induction bits with
  | nil => rfl
  | cons v rest ih => rw [spelt, ih, Bool.toNat_false]

namespace Block

theorem code_sum (block : Block) (env : Var → Bool) :
    block.code env = (block.bits.zipIdx.map fun (v, i) => (env v).toNat * 2 ^ i).sum := by
  rw [spelt_sum, Nat.pow_zero, Nat.mul_one, code]

theorem code_same (block : Block) (env other : Var → Bool) :
    block.code env = block.code other ↔ ∀ v ∈ block.vars, env v = other v := by
  rw [code, code, spelt_same]
  exact forall_congr' fun v => by rw [bits, List.mem_reverse]

theorem code_none (block : Block) : block.code (fun _ => false) = 0 := spelt_none block.bits

theorem code_onto (block : Block) (once : block.vars.Nodup) (n : Nat) (fits : n < 2 ^ block.width) :
    ∃ env, block.code env = n := by
  have width : block.bits.length = block.width := List.length_reverse
  obtain ⟨env, _, value⟩ := spelt_onto block.bits (List.nodup_reverse.mpr once) (fun _ => false) n (width ▸ fits)
  exact ⟨env, value⟩

end Block

open Store

namespace Workspace

def Encodes (ws : Workspace) (m t index value : Nat) (r : Ref) (next : Store) : Prop :=
  ws.perform (.encode m t (.value index value)) = ⟨.ok (.ref r), [], ws.setStore m next⟩

section

variable (ws : Workspace) (reachable : ws.Reachable) (m t : Nat) (store : Store) (table : BlockTable)
  (found : ws.stores[m]? = some store) (room : store.Roomy) (tabled : ws.tables[t]? = some table)
  (owned : table.owner = some store.id) (index : Nat) (block : Block) (listed : table.blocks[index]? = some block)

include reachable found room tabled owned listed

theorem encode_accepted (value : Nat) (small : value ≤ block.size) : ∃ r next, ws.Encodes m t index value r next ∧
    next.Sound ∧ Follows store next ∧ next.Roomy ∧ next.Live r ∧
      ∀ env, next.eval r env = decide (block.code env = value % 2 ^ block.width) := by
  obtain ⟨book, _, trusted⟩ := reachable_trusted ws reachable
  have mine := table.check_owner_mine store owned
  have shaped := owned_allocated ws reachable m t store table found tabled mine index block listed
  obtain ⟨r, next, done, ⟨follows, coherent⟩, tally, live, value⟩ := BlockTable.value_spells book table index value
    block store (trusted m store found) (store.spares_fewer 3 1 (by decide) room) owned listed shaped.allocated small
  exact ⟨r, next, encode_reply ws m t _ store next table r found tabled done, coherent.sound, follows,
    Action.roomy_follows store next tally room, live, value⟩

theorem encode_twice (value other : Nat) (small : value ≤ block.size) (also : other ≤ block.size) :
    ∃ r s next last, ws.Encodes m t index value r next ∧ (ws.setStore m next).Encodes m t index other s last ∧
      last.Sound ∧ (last.Live r ∧ ∀ env, last.eval r env = decide (block.code env = value % 2 ^ block.width)) ∧
      last.Live s ∧ ∀ env, last.eval s env = decide (block.code env = other % 2 ^ block.width) := by
  obtain ⟨r, next, first, sound, follows, nextRoom, live, known⟩ :=
    encode_accepted ws reachable m t store table found room tabled owned index block listed value small
  have onward : (ws.setStore m next).Reachable := by
    have after := reachable_run ws reachable [.encode m t (.value index value)]
    have step : ws.run [.encode m t (.value index value)] = ws.setStore m next := congrArg Reply.workspace first
    exact step ▸ after
  obtain ⟨s, last, second, lastSound, further, _, sLive, sKnown⟩ :=
    encode_accepted (ws.setStore m next) onward m t next table (set_store_found ws m store next found) nextRoom tabled
      (follows.id ▸ owned) index block listed other also
  refine ⟨r, s, next, last, first, second, lastSound, ⟨extends_live next last further.grown r live, fun env => ?_⟩,
    sLive, sKnown⟩
  rw [eval_extends next last sound lastSound further.grown r live, known]

end

end Workspace

structure Valued (ws : Workspace) (m t index : Nat) (block : Block) : Prop where
  code : ∀ env, block.code env = (block.bits.zipIdx.map fun (v, i) => (env v).toNat * 2 ^ i).sum
  accepted : ∀ value, value ≤ block.size → ∃ r next, ws.Encodes m t index value r next ∧ next.Live r ∧
    ∀ env, next.eval r env = true ↔ block.code env = value % 2 ^ block.width
  refused : ∀ value, block.size < value → ws.perform (.encode m t (.value index value)) =
    ws.refuse (.refused (.valueTooLarge index value block.size))
  single : block.vars.Nodup → ∀ value, value ≤ block.size → ∃ r next env, ws.Encodes m t index value r next ∧
    next.Pins r block.vars env ∧ next.model r = .ok (some ((Var.sorted block.vars).map fun v => (v, env v)))
  apart : ∀ value other, value < block.size → other < block.size → value ≠ other → ∃ r s next last,
    ws.Encodes m t index value r next ∧ (ws.setStore m next).Encodes m t index other s last ∧ last.Live r ∧
      last.Live s ∧ ∀ env, ¬ (last.eval r env = true ∧ last.eval s env = true)
  wraps : ∃ r s next last, ws.Encodes m t index block.size r next ∧ (ws.setStore m next).Encodes m t index 0 s last ∧
    last.Live r ∧ last.Live s ∧ ((∀ env, last.eval r env = last.eval s env) ↔ block.size = 2 ^ block.width)

theorem encode_valued (ws : Workspace) (reachable : ws.Reachable) (m t : Nat) (store : Store) (table : BlockTable)
    (found : ws.stores[m]? = some store) (room : store.Roomy) (tabled : ws.tables[t]? = some table)
    (owned : table.owner = some store.id) (index : Nat) (block : Block) (listed : table.blocks[index]? = some block) :
    Valued ws m t index block := by
  have mine := table.check_owner_mine store owned
  have shaped := Workspace.owned_allocated ws reachable m t store table found tabled mine index block listed
  have once := Workspace.encode_accepted ws reachable m t store table found room tabled owned index block listed
  have twice := Workspace.encode_twice ws reachable m t store table found room tabled owned index block listed
  constructor
  case code => exact block.code_sum
  case accepted =>
    intro value small
    obtain ⟨r, next, encodes, _, _, _, live, known⟩ := once value small
    exact ⟨r, next, encodes, live, fun env => by rw [known, decide_eq_true_eq]⟩
  case refused =>
    intro value large
    have turned : table.planValue index value store = .error (.valueTooLarge index value block.size) := by
      simp only [BlockTable.planValue, BlockTable.block, mine, listed, bind, Except.bind, if_pos large]
      rfl
    rw [Workspace.perform, Workspace.encode, Workspace.table_named ws t table tabled, Workspace.found]
    exact Workspace.on_store_refused ws m store found _ _ _ _ turned
  case single =>
    intro distinct value small
    obtain ⟨r, next, encodes, sound, _, _, live, known⟩ := once value small
    obtain ⟨env, spelt⟩ := block.code_onto distinct (value % 2 ^ block.width) (Nat.mod_lt _ (Nat.two_pow_pos _))
    have pins : next.Pins r block.vars env := by
      intro other
      rw [known, decide_eq_true_eq, ← spelt, block.code_same]
    exact ⟨r, next, env, encodes, pins, next.model_pins sound r live block.vars env pins⟩
  case apart =>
    intro value other small also different
    obtain ⟨r, s, next, last, first, second, _, ⟨rLive, rKnown⟩, sLive, sKnown⟩ :=
      twice value other (Nat.le_of_lt small) (Nat.le_of_lt also)
    refine ⟨r, s, next, last, first, second, rLive, sLive, fun env both => different ?_⟩
    rw [rKnown, sKnown, decide_eq_true_eq, decide_eq_true_eq, Nat.mod_eq_of_lt (Nat.lt_of_lt_of_le small shaped.wide),
      Nat.mod_eq_of_lt (Nat.lt_of_lt_of_le also shaped.wide)] at both
    exact both.1.symm.trans both.2
  case wraps =>
    obtain ⟨r, s, next, last, first, second, _, ⟨rLive, rKnown⟩, sLive, sKnown⟩ :=
      twice block.size 0 (Nat.le_refl _) (Nat.zero_le _)
    refine ⟨r, s, next, last, first, second, rLive, sLive, fun same => ?_, fun full env => ?_⟩
    · -- With all variables false the block spells 0, and so must its size, which is at least 1.
      have none := same fun _ => false
      rw [rKnown, sKnown, block.code_none, Nat.zero_mod, decide_eq_true rfl, decide_eq_true_eq] at none
      by_contra short
      rw [Nat.mod_eq_of_lt (Nat.lt_of_le_of_ne shaped.wide short)] at none
      exact Nat.ne_of_lt shaped.positive none
    · rw [rKnown, sKnown, full, Nat.mod_self, Nat.zero_mod]

-- A block put together from two of which the higher is on the left: its variables do not ascend.
theorem overlapped_valued : ∃ (ws : Workspace) (store : Store) (table : BlockTable) (block : Block),
    ws = Workspace.empty.run [.newStore {}, .newTable, .extend 0 0 [3, 4], .overlap 0 0 1 0] ∧ ws.Reachable ∧
      ws.stores[0]? = some store ∧ store.Roomy ∧ ws.tables[0]? = some table ∧ table.owner = some store.id ∧
      table.blocks[2]? = some block ∧ block.vars = [2, 4, 1, 3] ∧ block.size = 12 ∧ Valued ws 0 0 2 block := by
  obtain ⟨ws, built⟩ : ∃ ws, ws = Workspace.empty.run
    [.newStore {}, .newTable, .extend 0 0 [3, 4], .overlap 0 0 1 0] := ⟨_, rfl⟩
  have reachable : ws.Reachable := ⟨_, built.symm⟩
  have kept : ws.stores[0]?.any (fun store =>
      decide (store.id = 1 ∧ ∀ count ∈ store.counts.toList, count ≤ 1)) = true := by
    rw [built]
    decide +kernel
  have laid : ws.tables[0]?.any (fun table =>
      decide (table.owner = some 1 ∧ table.blocks[2]?.map (fun block => (block.vars, block.size)) =
        some ([2, 4, 1, 3], 12))) = true := by
    rw [built]
    decide +kernel
  obtain ⟨store, found, known⟩ := (Option.any_eq_true _ _).mp kept
  obtain ⟨id, counts⟩ := of_decide_eq_true known
  obtain ⟨table, tabled, known⟩ := (Option.any_eq_true _ _).mp laid
  obtain ⟨owner, placed⟩ := of_decide_eq_true known
  obtain ⟨block, listed, described⟩ := Option.map_eq_some_iff.mp placed
  obtain ⟨vars, size⟩ := Prod.mk.injEq _ _ _ _ ▸ described
  have owned : table.owner = some store.id := id ▸ owner
  have room := store.roomy_of_counts 1 (by decide) counts
  exact ⟨ws, store, table, block, built, reachable, found, room, tabled, owned, listed, vars, size,
    encode_valued ws reachable 0 0 store table found room tabled owned 2 block listed⟩

end DomainDiagram
