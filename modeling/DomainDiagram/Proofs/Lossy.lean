import DomainDiagram.Proofs.Counting

set_option autoImplicit false

namespace DomainDiagram

namespace Memo

inductive Call where
  | get (key : OpKey)
  | insert (key : OpKey) (result : Ref)
  | clear

def Call.isGet : Call → Bool
  | .get _ => true
  | .insert _ _ | .clear => false

def attend (state : List (Option Ref) × Memo) : Call → List (Option Ref) × Memo
  | .get key => (state.1 ++ [(state.2.consult key).1], (state.2.consult key).2)
  | .insert key result => (state.1, state.2.insert key result)
  | .clear => (state.1, state.2.clear)

def serve (memo : Memo) (calls : List Call) : List (Option Ref) × Memo := calls.foldl attend ([], memo)

def place (bits : Nat) (key : OpKey) : Nat := (key.hash &&& UInt64.ofNat (1 <<< bits - 1)).toNat

-- Since the result was kept under the key, the table has not been cleared and
-- nothing else has come into the place of the key.
def Latest (bits : Nat) (calls : List Call) (key : OpKey) (result : Ref) : Prop :=
  ∃ before after, calls = before ++ .insert key result :: after ∧ .clear ∉ after ∧
    ∀ other replaced, .insert other replaced ∈ after → place bits other ≠ place bits key

def Filled (bits : Nat) (calls : List Call) (i : Nat) : Prop :=
  ∃ before key result after, calls = before ++ .insert key result :: after ∧ .clear ∉ after ∧
    place bits key = i

theorem serve_snoc (memo : Memo) (calls : List Call) (call : Call) :
    memo.serve (calls ++ [call]) = attend (memo.serve calls) call := by
  simp [serve]

theorem slot_place (memo : Memo) (fits : memo.bits ≤ 31) (key : OpKey) :
    memo.slot key = place memo.bits key := by
  have small : 1 <<< memo.bits - 1 < 2 ^ 64 := by
    have power : 2 ^ memo.bits ≤ 2 ^ 31 := Nat.pow_le_pow_right (by decide) fits
    rw [Nat.one_shiftLeft]
    omega
  rw [place, UInt64.toNat_and, UInt64.toNat_ofNat_of_lt' small, slot, capacity, Nat.one_shiftLeft,
    Nat.and_two_pow_sub_one_eq_mod]

theorem place_small (bits : Nat) (key : OpKey) : place bits key < 2 ^ bits := by
  have power : 0 < 2 ^ bits := Nat.two_pow_pos bits
  have masked : place bits key ≤ 2 ^ bits - 1 := by
    rw [place, Nat.one_shiftLeft, UInt64.toNat_and, UInt64.toNat_ofNat']
    exact Nat.le_trans Nat.and_le_right (Nat.mod_le _ _)
  omega

theorem snoc_split {α : Type} (list before after : List α) (last found : α)
    (same : list ++ [last] = before ++ found :: after) :
    (before = list ∧ found = last ∧ after = []) ∨
      ∃ shorter, after = shorter ++ [last] ∧ list = before ++ found :: shorter := by
  rcases List.eq_nil_or_concat after with rfl | ⟨shorter, other, rfl⟩
  · obtain ⟨front, back⟩ := List.append_inj' same rfl
    exact .inl ⟨front.symm, (List.singleton_inj.mp back).symm, rfl⟩
  · rw [List.concat_eq_append] at same ⊢
    rw [← List.cons_append, ← List.append_assoc] at same
    obtain ⟨front, back⟩ := List.append_inj' same rfl
    exact .inr ⟨shorter, by rw [List.singleton_inj.mp back], front⟩

theorem latest_snoc (bits : Nat) (calls : List Call) (call : Call) (key : OpKey) (result : Ref) :
    Latest bits (calls ++ [call]) key result ↔ call = .insert key result ∨
      (Latest bits calls key result ∧ call ≠ .clear ∧
        ∀ other replaced, call = .insert other replaced → place bits other ≠ place bits key) := by
  constructor
  · rintro ⟨before, after, same, kept, alone⟩
    rcases snoc_split calls before after call _ same with ⟨-, last, -⟩ | ⟨shorter, rfl, split⟩
    · exact .inl last.symm
    · refine .inr ⟨⟨before, shorter, split, fun cleared => ?_, fun other replaced inside => ?_⟩,
        fun cleared => ?_, fun other replaced last => ?_⟩
      · exact kept (List.mem_append_left _ cleared)
      · exact alone other replaced (List.mem_append_left _ inside)
      · exact kept (by simp [cleared])
      · exact alone other replaced (by simp [last])
  · rintro (rfl | ⟨⟨before, after, rfl, kept, alone⟩, uncleared, apart⟩)
    · exact ⟨calls, [], rfl, List.not_mem_nil, fun other replaced inside => absurd inside List.not_mem_nil⟩
    · refine ⟨before, after ++ [call], by simp, ?_, fun other replaced inside => ?_⟩
      · simp [kept, Ne.symm uncleared]
      · rcases List.mem_append.mp inside with earlier | last
        · exact alone other replaced earlier
        · exact apart other replaced (List.mem_singleton.mp last).symm

theorem filled_snoc (bits : Nat) (calls : List Call) (call : Call) (i : Nat) :
    Filled bits (calls ++ [call]) i ↔ (∃ key result, call = .insert key result ∧ place bits key = i) ∨
      (Filled bits calls i ∧ call ≠ .clear) := by
  constructor
  · rintro ⟨before, key, result, after, same, kept, here⟩
    rcases snoc_split calls before after call _ same with ⟨-, last, -⟩ | ⟨shorter, rfl, split⟩
    · exact .inl ⟨key, result, last.symm, here⟩
    · refine .inr ⟨⟨before, key, result, shorter, split, fun cleared => ?_, here⟩, fun cleared => ?_⟩
      · exact kept (List.mem_append_left _ cleared)
      · exact kept (by simp [cleared])
  · rintro (⟨key, result, rfl, here⟩ | ⟨⟨before, key, result, after, rfl, kept, here⟩, uncleared⟩)
    · exact ⟨calls, key, result, [], rfl, List.not_mem_nil, here⟩
    · exact ⟨before, key, result, after ++ [call], by simp, by simp [kept, Ne.symm uncleared], here⟩

structure Records (bits : Nat) (calls : List Call) (memo : Memo) : Prop where
  width : memo.bits = bits
  sound : memo.Sound
  held : ∀ (i : Nat) (key : OpKey) (result : Ref), memo.slots[i]? = some (key, result) ↔
    place bits key = i ∧ Latest bits calls key result
  filled : ∀ i, i ∈ memo.slots ↔ Filled bits calls i

theorem records_empty (bits : Nat) : Records bits [] (empty bits) := by
  refine ⟨rfl, sound_empty bits, fun i key result => ?_, fun i => ?_⟩
  · simp [empty, Latest]
  · simp [empty, Filled]

theorem records_attend (bits : Nat) (fits : bits ≤ 31) (calls : List Call) (call : Call)
    (state : List (Option Ref) × Memo) (records : Records bits calls state.2) :
    Records bits (calls ++ [call]) (attend state call).2 := by
  obtain ⟨answers, memo⟩ := state
  obtain ⟨rfl, sound, held, filled⟩ := records
  cases call with
  | get key =>
      have slots : (memo.consult key).2.slots = memo.slots := by
        unfold consult
        split <;> rfl
      have bits : (memo.consult key).2.bits = memo.bits := by
        unfold consult
        split <;> rfl
      refine ⟨bits, sound_consult memo sound key, fun i other result => ?_, fun i => ?_⟩
      · simp [attend, slots, held, latest_snoc]
      · simp [attend, slots, filled, filled_snoc]
  | insert key result =>
      have slots : (memo.insert key result).slots =
          memo.slots.insert (place memo.bits key) (key, result) := by
        rw [← slot_place memo fits key]
        rfl
      refine ⟨rfl, sound_insert memo sound key result, fun i other kept => ?_, fun i => ?_⟩
      · simp only [attend, slots, Std.TreeMap.getElem?_insert, latest_snoc]
        by_cases here : place memo.bits key = i
        · grind [Nat.compare_eq_eq]
        · grind [Nat.compare_eq_eq]
      · simp only [attend, slots, Std.TreeMap.mem_insert, filled, filled_snoc, Nat.compare_eq_eq]
        grind
  | clear =>
      refine ⟨rfl, sound_clear memo, fun i other kept => ?_, fun i => ?_⟩
      · simp [attend, clear, latest_snoc]
      · simp [attend, clear, filled_snoc]

theorem serve_records (bits : Nat) (fits : bits ≤ 31) (calls : List Call) :
    Records bits calls ((empty bits).serve calls).2 := by
  induction calls using List.reverseRecOn with
  | nil => exact records_empty bits
  | append_singleton calls call ih =>
      rw [serve_snoc]
      exact records_attend bits fits calls call _ ih

theorem records_found (bits : Nat) (fits : bits ≤ 31) (calls : List Call) (memo : Memo)
    (records : Records bits calls memo) (key : OpKey) (result : Ref) :
    (memo.consult key).1 = some result ↔ Latest bits calls key result := by
  have held := records.held (memo.slot key)
  rw [consult_found, find?]
  rw [slot_place memo (records.width ▸ fits) key, records.width] at held ⊢
  cases content : memo.slots[place bits key]? with
  | none =>
      have none := held key result
      simp_all
  | some entry =>
      obtain ⟨kept, value⟩ := entry
      by_cases same : kept = key
      · subst same
        have here := held kept result
        simp_all
      · have here := held key result
        simp_all

theorem records_size (bits : Nat) (calls : List Call) (memo : Memo) (records : Records bits calls memo) :
    (memo.size : ℕ∞) = {i | Filled bits calls i}.encard := by
  have keys : {i | Filled bits calls i} = {i | i ∈ memo.slots.keys} := by
    ext i
    simp [← records.filled]
  have once : memo.slots.keys.Nodup := Std.TreeMap.nodup_keys
  rw [keys, list_encard _ once, Std.TreeMap.length_keys, size, records.sound.filled]

theorem filled_card (bits : Nat) (calls : List Call) : {i | Filled bits calls i}.encard ≤ 2 ^ bits := by
  have inside : {i | Filled bits calls i} ⊆ (Finset.range (2 ^ bits) : Set Nat) := by
    rintro i ⟨_, key, _, _, _, _, rfl⟩
    simpa using place_small bits key
  have most := Set.encard_le_encard inside
  rwa [Set.encard_coe_eq_coe_finsetCard, Finset.card_range, Nat.cast_pow, Nat.cast_ofNat] at most

theorem serve_front (memo : Memo) (before after : List Call) :
    ∃ more, (memo.serve (before ++ after)).1 = (memo.serve before).1 ++ more := by
  induction after using List.reverseRecOn with
  | nil => exact ⟨[], by simp⟩
  | append_singleton after call ih =>
      obtain ⟨more, front⟩ := ih
      rw [← List.append_assoc, serve_snoc]
      cases call with
      | get key => exact ⟨_, by rw [attend, front, List.append_assoc]⟩
      | insert key result => exact ⟨more, front⟩
      | clear => exact ⟨more, front⟩

structure Counted (calls : List Call) (answers : List (Option Ref)) (memo : Memo) : Prop where
  gets : answers.length = calls.countP Call.isGet
  hits : memo.hits = answers.countP Option.isSome
  total : memo.hits + memo.misses = answers.length

theorem counted_attend (calls : List Call) (call : Call) (state : List (Option Ref) × Memo)
    (counted : Counted calls state.1 state.2) :
    Counted (calls ++ [call]) (attend state call).1 (attend state call).2 := by
  obtain ⟨answers, memo⟩ := state
  obtain ⟨gets, hits, total⟩ := counted
  cases call with
  | get key =>
      simp only [attend, consult]
      cases memo.find? key with
      | some result => exact ⟨by simp_all [Call.isGet], by simp_all, by simp_all; omega⟩
      | none => exact ⟨by simp_all [Call.isGet], by simp_all, by simp_all; omega⟩
  | insert key result => exact ⟨by simp [attend, Call.isGet, gets], hits, total⟩
  | clear => exact ⟨by simp [attend, Call.isGet, gets], hits, total⟩

theorem serve_counted (bits : Nat) (calls : List Call) :
    Counted calls ((empty bits).serve calls).1 ((empty bits).serve calls).2 := by
  induction calls using List.reverseRecOn with
  | nil => exact ⟨rfl, rfl, rfl⟩
  | append_singleton calls call ih =>
      rw [serve_snoc]
      exact counted_attend calls call _ ih

-- A table that forgets, and never makes anything up. The answer to a lookup
-- is at the place that the lookups before it leave for it.
structure Lossy (bits : Nat) (calls : List Call) (answers : List (Option Ref)) (memo : Memo) : Prop where
  answered : ∀ before key after, calls = before ++ .get key :: after →
    ∃ answer, answers[before.countP Call.isGet]? = some answer ∧
      ∀ result, answer = some result ↔ Latest bits before key result
  size : (memo.size : ℕ∞) = {i | Filled bits calls i}.encard
  bounded : memo.size ≤ 2 ^ bits
  gets : answers.length = calls.countP Call.isGet
  hits : memo.hits = answers.countP Option.isSome
  total : memo.hits + memo.misses = calls.countP Call.isGet

theorem create_lossy (bits : Nat) (fits : bits ≤ 31) (calls : List Call) :
    ∃ memo, create bits = .ok memo ∧ Lossy bits calls (memo.serve calls).1 (memo.serve calls).2 := by
  have records := serve_records bits fits calls
  have counted := serve_counted bits calls
  have size := records_size bits calls _ records
  refine ⟨empty bits, if_pos fits, ?_, size, ?_, counted.gets, counted.hits, counted.total.trans counted.gets⟩
  · rintro before key after rfl
    have sofar := serve_records bits fits before
    obtain ⟨more, front⟩ := serve_front (empty bits) (before ++ [.get key]) after
    rw [List.append_assoc, List.singleton_append, serve_snoc, attend] at front
    refine ⟨_, ?_, records_found bits fits before _ sofar key⟩
    rw [front, ← (serve_counted bits before).gets]
    simp
  · have most := filled_card bits calls
    rw [← size] at most
    exact_mod_cast most

-- The first two keys share a place of the two there are.
theorem shared_place_lossy :
    ∃ memo, create 1 = .ok memo ∧
      (memo.serve [.insert (.negate 2) 7, .insert (.negate 4) 8, .insert (.negate 3) 9,
        .get (.negate 2), .get (.negate 4), .clear, .get (.negate 4)]).1 = [none, some 8, none] ∧
      Lossy 1 [.insert (.negate 2) 7, .insert (.negate 4) 8, .insert (.negate 3) 9,
        .get (.negate 2), .get (.negate 4), .clear, .get (.negate 4)] [none, some 8, none]
        (memo.serve [.insert (.negate 2) 7, .insert (.negate 4) 8, .insert (.negate 3) 9,
          .get (.negate 2), .get (.negate 4), .clear, .get (.negate 4)]).2 := by
  obtain ⟨memo, created, lossy⟩ := create_lossy 1 (by decide)
    [.insert (.negate 2) 7, .insert (.negate 4) 8, .insert (.negate 3) 9,
      .get (.negate 2), .get (.negate 4), .clear, .get (.negate 4)]
  obtain rfl : empty 1 = memo := Except.ok.inj created
  have answers : ((empty 1).serve [.insert (.negate 2) 7, .insert (.negate 4) 8, .insert (.negate 3) 9,
      .get (.negate 2), .get (.negate 4), .clear, .get (.negate 4)]).1 = [none, some 8, none] := by
    decide +kernel
  exact ⟨empty 1, rfl, answers, answers ▸ lossy⟩

end Memo

end DomainDiagram
