import DomainDiagram.Proofs.Meaning
import DomainDiagram.Printing
import Mathlib.Data.List.Nodup

set_option autoImplicit false

namespace DomainDiagram

def Path.agrees (env : Var → Bool) (path : Path) : Bool := path.all fun (v, value) => env v == value

theorem Path.agrees_cons (env : Var → Bool) (v : Var) (value : Bool) (path : Path) :
    agrees env ((v, value) :: path) = ((env v == value) && agrees env path) := rfl

namespace Store

inductive Leads (store : Store) : Ref → Path → Prop where
  | arrived : Leads store 1 []
  | low (f : Ref) (node : Node) (path : Path) (tests : store.Tests f node) (rest : Leads store node.low path) :
      Leads store f ((node.var, false) :: path)
  | high (f : Ref) (node : Node) (path : Path) (tests : store.Tests f node) (rest : Leads store node.high path) :
      Leads store f ((node.var, true) :: path)

-- All of them, those with "false" before those with "true" at every node.
def pathsFrom (store : Store) : Nat → Ref → List Path
  | 0, _ => []
  | steps + 1, f =>
      if f.isZero then []
      else if f.isOne then [[]]
      else
        match store.node f with
        | .error _ => []
        | .ok node =>
            (store.pathsFrom steps node.low).map ((node.var, false) :: ·) ++
              (store.pathsFrom steps node.high).map ((node.var, true) :: ·)

def paths (store : Store) (f : Ref) : List Path := store.pathsFrom store.steps f

theorem tests_large (store : Store) (f : Ref) (node : Node) (tests : store.Tests f node) :
    f.isZero = false ∧ f.isOne = false := by
  have large := tests.1
  refine ⟨beq_eq_false_iff_ne.mpr ?_, beq_eq_false_iff_ne.mpr ?_⟩
  · lia
  · lia

theorem paths_from_tests (store : Store) (steps : Nat) (f : Ref) (node : Node) (tests : store.Tests f node) :
    store.pathsFrom (steps + 1) f = (store.pathsFrom steps node.low).map ((node.var, false) :: ·) ++
      (store.pathsFrom steps node.high).map ((node.var, true) :: ·) := by
  obtain ⟨notZero, notOne⟩ := tests_large store f node tests
  simp [pathsFrom, notZero, notOne, node_tests store f node tests]

-- A walk that starts with a step for every variable to come never runs out of steps.
theorem walk_induction (store : Store) (sound : store.Sound) (holds : Nat → Ref → Prop)
    (zero : ∀ steps, holds (steps + 1) 0) (one : ∀ steps, holds (steps + 1) 1)
    (decision : ∀ steps f node, store.Tests f node → holds steps node.low → holds steps node.high →
      holds (steps + 1) f) (f : Ref) (live : store.Live f) : holds store.steps f := by
  have each : ∀ (steps v : Nat) (g : Ref), store.Below v g → v ≤ store.numVars → store.numVars < v + steps →
      holds steps g := by
    intro steps
    induction steps with
    | zero => intro v g _ inside enough; omega
    | succ steps ih =>
        intro v g below inside enough
        rcases below_live store v g below with small | ⟨node, tests⟩
        · rcases Ref.terminal_cases g small with rfl | rfl
          · exact zero steps
          · exact one steps
        · have less := below_tests store v g node below tests
          have bound := (sound.allocated g node tests).2
          obtain ⟨low, high⟩ := sound.ordered g node tests
          exact decision steps g node tests (ih node.var node.low low bound (by lia))
            (ih node.var node.high high bound (by lia))
  exact each store.steps 0 f (live_below store sound f live) (Nat.zero_le _) (by simp only [steps]; omega)

theorem paths_lead (store : Store) (sound : store.Sound) (f : Ref) (live : store.Live f) (path : Path) :
    path ∈ store.paths f ↔ store.Leads f path := by
  have noTerminal : ∀ (g : Ref) (node : Node), g ≤ 1 → ¬ store.Tests g node := fun g node small tests =>
    absurd tests.1 (Nat.not_le_of_lt (Nat.lt_succ_of_le small))
  apply walk_induction store sound (fun steps f => ∀ path, path ∈ store.pathsFrom steps f ↔ store.Leads f path)
    _ _ _ f live path
  · intro steps path
    refine ⟨nofun, fun leads => ?_⟩
    cases leads with
    | low _ node _ tests _ => exact absurd tests (noTerminal 0 node (Nat.zero_le 1))
    | high _ node _ tests _ => exact absurd tests (noTerminal 0 node (Nat.zero_le 1))
  · intro steps path
    refine ⟨fun member => ?_, fun leads => ?_⟩
    · obtain rfl := List.mem_singleton.mp member
      exact .arrived
    · cases leads with
      | arrived => exact List.mem_singleton.mpr rfl
      | low _ node _ tests _ => exact absurd tests (noTerminal 1 node (Nat.le_refl 1))
      | high _ node _ tests _ => exact absurd tests (noTerminal 1 node (Nat.le_refl 1))
  · intro steps f node tests low high path
    rw [paths_from_tests store steps f node tests, List.mem_append, List.mem_map, List.mem_map]
    constructor
    · rintro (⟨rest, member, rfl⟩ | ⟨rest, member, rfl⟩)
      · exact .low f node rest tests ((low rest).mp member)
      · exact .high f node rest tests ((high rest).mp member)
    · intro leads
      cases leads with
      | arrived => exact absurd tests (noTerminal 1 node (Nat.le_refl 1))
      | low _ other rest otherTests leads =>
          obtain rfl := tests_node_unique store f node other tests otherTests
          exact .inl ⟨rest, (low rest).mpr leads, rfl⟩
      | high _ other rest otherTests leads =>
          obtain rfl := tests_node_unique store f node other tests otherTests
          exact .inr ⟨rest, (high rest).mpr leads, rfl⟩

theorem paths_nodup (store : Store) (sound : store.Sound) (f : Ref) (live : store.Live f) : (store.paths f).Nodup := by
  apply walk_induction store sound (fun steps f => (store.pathsFrom steps f).Nodup) _ _ _ f live
  · exact fun _ => List.nodup_nil
  · exact fun _ => List.nodup_singleton []
  · intro steps f node tests low high
    rw [paths_from_tests store steps f node tests]
    have apart : ∀ choice : Var × Bool, Function.Injective (choice :: · : Path → Path) := fun _ _ _ same =>
      (List.cons.inj same).2
    refine List.Nodup.append (low.map (apart _)) (high.map (apart _)) ?_
    intro path left right
    obtain ⟨_, _, rfl⟩ := List.mem_map.mp left
    obtain ⟨_, _, same⟩ := List.mem_map.mp right
    exact nomatch (Prod.mk.inj (List.cons.inj same).1).2

theorem paths_count (store : Store) (sound : store.Sound) (env : Var → Bool) (f : Ref) (live : store.Live f) :
    (store.paths f).countP (Path.agrees env) = (store.eval f env).toNat := by
  apply walk_induction store sound
    (fun steps f => (store.pathsFrom steps f).countP (Path.agrees env) = (store.eval f env).toNat) _ _ _ f live
  · intro _
    simp [pathsFrom]
  · intro _
    simp [pathsFrom, Path.agrees]
  · intro steps f node tests low high
    have along : ∀ (value : Bool) (paths : List Path),
        (paths.map ((node.var, value) :: ·)).countP (Path.agrees env) =
          if env node.var = value then paths.countP (Path.agrees env) else 0 := by
      intro value paths
      rw [List.countP_map]
      by_cases same : env node.var = value
      · simp [same, Path.agrees_cons, Function.comp_def]
      · simp [same, Path.agrees_cons, Function.comp_def]
    rw [paths_from_tests store steps f node tests, List.countP_append, along, along, low, high,
      eval_tests store sound env f node tests]
    cases env node.var <;> simp

theorem leads_ascending (store : Store) (sound : store.Sound) (f : Ref) (path : Path) (leads : store.Leads f path)
    (v : Var) (below : store.Below v f) :
    (∀ choice ∈ path, v < choice.1) ∧ (path.map (·.1)).Pairwise (· < ·) := by
  induction leads generalizing v with
  | arrived => exact ⟨nofun, .nil⟩
  | low f node path tests _ ih =>
      have less := below_tests store v f node below tests
      obtain ⟨above, ordered⟩ := ih node.var (sound.ordered f node tests).1
      refine ⟨List.forall_mem_cons.mpr ⟨less, fun choice member => Nat.lt_trans less (above choice member)⟩, ?_⟩
      exact List.pairwise_cons.mpr ⟨List.forall_mem_map.mpr above, ordered⟩
  | high f node path tests _ ih =>
      have less := below_tests store v f node below tests
      obtain ⟨above, ordered⟩ := ih node.var (sound.ordered f node tests).2
      refine ⟨List.forall_mem_cons.mpr ⟨less, fun choice member => Nat.lt_trans less (above choice member)⟩, ?_⟩
      exact List.pairwise_cons.mpr ⟨List.forall_mem_map.mpr above, ordered⟩

theorem leads_once (store : Store) (sound : store.Sound) (f : Ref) (live : store.Live f) (path : Path)
    (leads : store.Leads f path) : (path.map (·.1)).Nodup :=
  (leads_ascending store sound f path leads 0 (live_below store sound f live)).2.imp Nat.ne_of_lt

end Store

theorem Path.lookup_mem (path : Path) (once : (path.map (·.1)).Nodup) (v : Var) (value : Bool) :
    path.lookup v = some value ↔ (v, value) ∈ path := by
  induction path with
  | nil => exact ⟨nofun, nofun⟩
  | cons choice rest ih =>
      obtain ⟨w, chosen⟩ := choice
      obtain ⟨fresh, later⟩ := List.nodup_cons.mp once
      by_cases same : v = w
      · subst same
        have apart : (v, value) ∉ rest := fun member => fresh (List.mem_map.mpr ⟨_, member, rfl⟩)
        simp [apart, eq_comm]
      · have differ : (v == w) = false := beq_eq_false_iff_ne.mpr same
        simp [List.lookup_cons, differ, same, ih later]

namespace BlockTable

theorem print_from_paths {σ : Type} (table : BlockTable) (store : Store) (sound : store.Sound)
    (write : σ → String → Bool × σ) (f : Ref) (live : store.Live f) :
    table.printFrom store write store.steps f [] =
      ((store.paths f).map fun path => groupText (table.group path.reverse)).forM (Printout.offerGroup write) := by
  have each := Store.walk_induction store sound (fun steps f => ∀ before : Path,
    table.printFrom store write steps f before = ((store.pathsFrom steps f).map fun path =>
      groupText (table.group (path.reverse ++ before))).forM (Printout.offerGroup write))
  have whole := each ?_ ?_ ?_ f live []
  · simpa only [Store.paths, List.append_nil] using whole
  · exact fun _ _ => rfl
  · intro steps before
    simp [printFrom, Store.pathsFrom, Ref.isZero, Ref.isOne]
  · intro steps f node tests low high before
    obtain ⟨notZero, notOne⟩ := Store.tests_large store f node tests
    rw [Store.paths_from_tests store steps f node tests]
    simp [printFrom, notZero, notOne, Store.node_tests store f node tests, low, high, Function.comp_def]

end BlockTable
end DomainDiagram
