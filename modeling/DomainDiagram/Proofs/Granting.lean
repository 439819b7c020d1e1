import DomainDiagram.Proofs.Allotment
import DomainDiagram.Proofs.Foreign
import DomainDiagram.Proofs.Lasting
import Mathlib.Data.List.Sort

set_option autoImplicit false

namespace DomainDiagram

namespace Store

structure Widened (store next : Store) (n : Nat) : Prop where
  vars : next.numVars = store.numVars + n
  bounded : next.numVars < Var.bound
  numbered : ∀ i, i < n → Var.offset (store.numVars + 1) i = .ok (store.numVars + 1 + i)
  allocated : ∀ v, next.checkAllocated v = .ok () ↔
    store.checkAllocated v = .ok () ∨ v ∈ List.range' (store.numVars + 1) n
  levelled : next.levels.size = next.numVars ∧ ∀ i level, next.levels[i]? = some level → level.var = i + 1
  nodes : ∀ f node, store.Tests f node → next.Tests f node
  memo : next.memo = store.memo
  eval : ∀ f, store.Live f → next.Live f ∧ ∀ env, next.eval f env = store.eval f env

theorem follows_widened (store next : Store) (sound : store.Sound) (nextSound : next.Sound)
    (follows : Follows store next) (n : Nat) (vars : next.numVars = store.numVars + n)
    (bounded : next.numVars < Var.bound) (memo : next.memo = store.memo) : store.Widened next n := by
  constructor
  case vars => exact vars
  case bounded => exact bounded
  case numbered =>
    intro i inside
    have small : store.numVars + 1 + i < Var.bound := by omega
    have positive : store.numVars + 1 + i ≠ 0 := by omega
    rw [Var.offset, if_pos small, Var.ofNumber, if_neg positive]
  case allocated =>
    intro v
    rw [Action.check_allocated, Action.check_allocated, List.mem_range'_1]
    lia
  case levelled => exact ⟨nextSound.levelled, nextSound.levelVar⟩
  case nodes => exact follows.grown.kept
  case memo => exact memo
  case eval =>
    exact fun f live => ⟨extends_live store next follows.grown f live,
      eval_extends store next sound nextSound follows.grown f live⟩

theorem grow_levels (store : Store) (sound : store.Sound) (n : Nat) :
    (∀ i, i < store.numVars → (store.grow n).levels[i]? = store.levels[i]?) ∧
      ∀ i, i < n → (store.grow n).levels[store.numVars + i]? = some (.empty (store.numVars + 1 + i)) := by
  induction n with
  | zero => exact ⟨fun _ _ => rfl, nofun⟩
  | succ n ih =>
      obtain ⟨old, new⟩ := ih
      have size : (store.grow n).levels.size = store.numVars + n := (grow_sound store sound n).levelled
      have levels : (store.grow (n + 1)).levels = (store.grow n).levels.push (.empty (store.numVars + 1 + n)) := by
        simp only [grow, Nat.fold_succ]
      refine ⟨fun i inside => ?_, fun i inside => ?_⟩
      · rw [levels, Array.getElem?_push, if_neg (by omega)]
        exact old i inside
      · rw [levels, Array.getElem?_push, size]
        by_cases last : i = n
        · rw [if_pos (by omega), last]
        · rw [if_neg (by omega)]
          exact new i (by omega)

theorem next_var_refused (store : Store) (n : Nat)
    (short : store.config.maxVars - store.numVars < n ∨ Var.bound ≤ store.numVars + 1) :
    store.nextVar n = .error (.outOfVariables n (store.config.maxVars - store.numVars)) := by
  have fails : ¬ (store.numVars + 1 < Var.bound ∧ n ≤ store.config.maxVars - store.numVars) := by omega
  simp only [nextVar, if_neg fails]

theorem part_lasting {α : Type} (part : Store → α)
    (recount : ∀ (store : Store) (counts : Array Nat), part { store with counts := counts } = part store)
    (place : ∀ (store : Store) (node : Node), part (store.place node).2 = part store) :
    Lasting fun old new => part new = part old := by
  constructor
  case stay => exact fun _ => rfl
  case recount => exact recount
  case place => exact place
  case onward => exact fun _ _ _ first second => second.trans first

theorem memo_lasting : Lasting fun old new => new.memo = old.memo := by
  refine part_lasting memo (fun _ _ => rfl) fun store node => ?_
  unfold place
  split <;> rfl

theorem vars_lasting : Lasting fun old new => new.numVars = old.numVars := by
  refine part_lasting numVars (fun _ _ => rfl) fun store node => ?_
  unfold place
  split <;> rfl

end Store

namespace BlockTable

open Store

theorem plan_extend_refused (table : BlockTable) (sizes : List Nat) (store : Store)
    (owned : table.owner = none ∨ table.owner = some store.id) (some : sizes ≠ [])
    (positive : ∀ size ∈ sizes, 0 < size)
    (short : store.config.maxVars - store.numVars < total (sizes.map bitWidth)) :
    table.planExtend sizes store =
      .error (.outOfVariables (total (sizes.map bitWidth)) (store.config.maxVars - store.numVars)) := by
  have listed : sizes.isEmpty = false := by simpa using some
  simp only [planExtend, (check_owner_ok table store).mpr owned, widths_fit sizes positive, bind, Except.bind, listed,
    next_var_refused store _ (.inl short)]
  rfl

theorem extend_memo (table later : BlockTable) (sizes : List Nat) (store next : Store)
    (done : table.extend sizes store = .ok later next) : next.memo = store.memo := by
  rcases Action.ends_ok _ store next later _ _ (Action.extend_lasts memo_lasting table sizes store) done with
    same | ⟨_, _, _, same⟩
  · exact same
  · exact same

theorem extend_widened (book : Book) (table : BlockTable) (sizes : List Nat) (store : Store)
    (coherent : store.Coherent book) (owned : table.owner = none ∨ table.owner = some store.id) (some : sizes ≠ [])
    (sized : ∀ size ∈ sizes, 0 < size) (narrow : store.config.maxVars < Var.bound)
    (room : total (sizes.map bitWidth) ≤ store.config.maxVars - store.numVars) :
    ∃ later next added, table.extend sizes store = .ok later next ∧ Allotted table later store next sizes added ∧
      store.Widened next (total (sizes.map bitWidth)) := by
  obtain ⟨later, next, added, done, vars, same, grown⟩ :=
    extend_done book table sizes store coherent owned some sized narrow room
  have known := Action.ends_ok _ store next later _ _ (extend_ends book table sizes store coherent) done
  obtain ⟨⟨follows, nextCoherent⟩, _⟩ := known
  have positive := total_positive sizes some
  have allotted := grown_allotted table later store next sizes added sized some vars same grown
  refine ⟨later, next, added, done, allotted, ?_⟩
  exact follows_widened store next coherent.sound nextCoherent.sound follows _ vars (by omega)
    (extend_memo table later sizes store next done)

theorem extend_cases (book : Book) (table : BlockTable) (sizes : List Nat) (store : Store)
    (coherent : store.Coherent book) (narrow : store.config.maxVars < Var.bound) :
    (∃ refusal, table.planExtend sizes store = .error refusal) ∨
      ∃ (later : BlockTable) (next : Store) (added : List Block) (n : Nat),
        table.extend sizes store = .ok later next ∧ later.blocks = table.blocks ++ added.toArray ∧
        (added.flatMap (·.vars)).Perm (List.range' (store.numVars + 1) n) ∧
        next.numVars = store.numVars + n ∧ n ≤ store.config.maxVars - store.numVars := by
  cases planned : table.planExtend sizes store with
  | error refusal => exact .inl ⟨refusal, rfl⟩
  | ok rows =>
      obtain ⟨owned, plan⟩ := plan_extend_ok table sizes store rows planned
      right
      by_cases none : sizes = []
      · have empty : rows = [] := List.map_eq_nil_iff.mp (plan.sizes.trans none)
        have done : table.extend sizes store = .ok table store := by
          simp only [extend, Request.afterCheck, planned, empty]
          rfl
        exact ⟨table, store, [], 0, done, (Array.append_empty).symm, .nil, rfl, Nat.zero_le _⟩
      · have positive : ∀ size ∈ sizes, 0 < size := by
          intro size member
          rw [← plan.sizes] at member
          obtain ⟨row, inside, rfl⟩ := List.mem_map.mp member
          exact plan.positive row inside
        by_cases room : total (sizes.map bitWidth) ≤ store.config.maxVars - store.numVars
        · obtain ⟨later, next, added, done, allotted, widened⟩ :=
            extend_widened book table sizes store coherent owned none positive narrow room
          exact ⟨later, next, added, _, done, allotted.blocks, allotted.once, widened.vars, room⟩
        · have refused := plan_extend_refused table sizes store owned none positive (Nat.lt_of_not_le room)
          cases planned.symm.trans refused

end BlockTable

namespace Workspace

open Store

-- The variables that a command has been granted in the store at m, as its
-- answer and the blocks it names tell. Those of new blocks are put in order.
def granted (ws : Workspace) (m : Nat) (command : Command) : List Var :=
  match command, (ws.perform command).outcome with
  | .newVars k n, .ok (.var first) => if k = m then List.range' first n else []
  | .extend k t _, .ok (.index first) =>
      if k = m then
        match (ws.perform command).workspace.tables[t]? with
        | some table => ((table.blocks.toList.drop first).flatMap (·.vars)).insertionSort (· ≤ ·)
        | none => []
      else []
  | _, _ => []

def grants (ws : Workspace) (m : Nat) : List Command → List (List Var)
  | [] => []
  | command :: rest => ws.granted m command :: (ws.perform command).workspace.grants m rest

theorem grants_snoc (ws : Workspace) (m : Nat) (before : List Command) (command : Command) :
    ws.grants m (before ++ [command]) = ws.grants m before ++ [(ws.run before).granted m command] := by
  induction before generalizing ws with
  | nil => rfl
  | cons first rest ih =>
      rw [List.cons_append, grants, ih]
      rfl

theorem sort_range (vars : List Var) (first n : Nat) (same : vars.Perm (List.range' first n)) :
    vars.insertionSort (· ≤ ·) = List.range' first n :=
  ((List.perm_insertionSort (· ≤ ·) vars).trans same).eq_of_pairwise' (List.pairwise_insertionSort (· ≤ ·) vars)
    (List.pairwise_le_range' 1)

theorem new_vars_granted (ws : Workspace) (m n : Nat) (store : Store) (first : Var)
    (found : ws.stores[m]? = some store) (drawn : store.nextVar n = .ok first) :
    ws.perform (.newVars m n) =
      ⟨.ok (.var first), [.grown n first (store.grow n).numVars], ws.setStore m (store.grow n)⟩ := by
  simp only [perform, newVars, on_store_run, found, Request.newVars, Request.afterCheck, drawn, Request.perform]

theorem new_vars_refused (ws : Workspace) (m n : Nat) (store : Store) (found : ws.stores[m]? = some store)
    (refusal : Refusal) (turned : store.nextVar n = .error refusal) :
    ws.perform (.newVars m n) = ws.refuse (.refused refusal) :=
  on_store_refused ws m store found (·.nextVar n) _ _ refusal turned

theorem extend_refused (ws : Workspace) (m t : Nat) (store : Store) (table : BlockTable) (sizes : List Nat)
    (found : ws.stores[m]? = some store) (tabled : ws.tables[t]? = some table) (refusal : Refusal)
    (turned : table.planExtend sizes store = .error refusal) :
    ws.perform (.extend m t sizes) = ws.refuse (.refused refusal) := by
  rw [perform, extend, table_named ws t table tabled, Workspace.found]
  exact on_store_refused ws m store found (table.planExtend sizes) table.append _ refusal turned

theorem extend_reply (ws : Workspace) (m t : Nat) (store next : Store) (table later : BlockTable) (sizes : List Nat)
    (found : ws.stores[m]? = some store) (tabled : ws.tables[t]? = some table)
    (done : table.extend sizes store = .ok later next) :
    (ws.perform (.extend m t sizes)).outcome = .ok (.index table.size) ∧
      (ws.perform (.extend m t sizes)).workspace = (ws.setStore m next).setTable t later := by
  simp only [perform, extend, table_named ws t table tabled, Workspace.found, on_store_run, found, done, and_self]

theorem extend_granted (ws : Workspace) (reachable : ws.Reachable) (m t : Nat) (store : Store)
    (found : ws.stores[m]? = some store) (sizes : List Nat) (narrow : store.config.maxVars < Var.bound) :
    (∃ failure, ws.perform (.extend m t sizes) = ws.refuse failure) ∨
      ∃ (table later : BlockTable) (next : Store) (added : List Block) (n : Nat), ws.tables[t]? = some table ∧
        (ws.perform (.extend m t sizes)).outcome = .ok (.index table.size) ∧
        (ws.perform (.extend m t sizes)).workspace = (ws.setStore m next).setTable t later ∧
        later.blocks = table.blocks ++ added.toArray ∧
        (added.flatMap (·.vars)).Perm (List.range' (store.numVars + 1) n) ∧
        next.numVars = store.numVars + n ∧ n ≤ store.config.maxVars - store.numVars := by
  obtain ⟨book, _, trusted⟩ := reachable_trusted ws reachable
  cases tabled : ws.tables[t]? with
  | none => exact .inl ⟨.absent, by simp only [perform, extend, Workspace.table, tabled, Workspace.found]⟩
  | some table =>
      rcases BlockTable.extend_cases book table sizes store (trusted m store found) narrow with
        ⟨refusal, planned⟩ | ⟨later, next, added, n, done, drawn⟩
      · exact .inl ⟨_, extend_refused ws m t store table sizes found tabled refusal planned⟩
      · obtain ⟨outcome, after⟩ := extend_reply ws m t store next table later sizes found tabled done
        exact .inr ⟨table, later, next, added, n, rfl, outcome, after, drawn⟩

theorem granted_quiet (ws : Workspace) (m : Nat) (command : Command) (fixed : ∀ n, command ≠ .newVars m n)
    (closed : ∀ t sizes, command ≠ .extend m t sizes) : ws.granted m command = [] := by
  unfold granted
  split
  · next k n first _ =>
      exact if_neg fun here : k = m => fixed n (here ▸ rfl)
  · next k t sizes first _ =>
      exact if_neg fun here : k = m => closed t sizes (here ▸ rfl)
  · rfl

theorem granted_refused (ws : Workspace) (m : Nat) (command : Command) (failure : Failure)
    (refused : ws.perform command = ws.refuse failure) : ws.granted m command = [] := by
  have outcome : (ws.perform command).outcome = .error failure := by rw [refused, refuse]
  unfold granted
  rw [outcome]
  split <;> simp_all

theorem granted_absent (ws : Workspace) (m : Nat) (command : Command) (absent : ws.stores[m]? = none) :
    ws.granted m command = [] := by
  by_cases new : ∃ n, command = .newVars m n
  · obtain ⟨n, rfl⟩ := new
    refine granted_refused ws m _ .absent ?_
    simp only [perform, newVars, on_store_run, absent]
  by_cases blocks : ∃ t sizes, command = .extend m t sizes
  · obtain ⟨t, sizes, rfl⟩ := blocks
    refine granted_refused ws m _ .absent ?_
    simp only [perform, extend, Workspace.table, on_store_run, absent]
    cases ws.tables[t]? <;> rfl
  · exact granted_quiet ws m command (fun n same => new ⟨n, same⟩) fun t sizes same => blocks ⟨t, sizes, same⟩

theorem grants_absent (m : Nat) (commands : List Command) (absent : (empty.run commands).stores[m]? = none) :
    (empty.grants m commands).flatten = [] := by
  induction commands using List.reverseRecOn with
  | nil => rfl
  | append_singleton before command ih =>
      have earlier := absent_before m before command absent
      rw [grants_snoc, List.flatten_append, ih earlier, granted_absent _ m command earlier]
      rfl

theorem fate_vars (ws : Workspace) (m : Nat) (command : Command) (store next : Store) (sound : store.Sound)
    (fate : ws.Fate (fun old new => new.numVars = old.numVars) m store command next)
    (fixed : ∀ n, command ≠ .newVars m n) (closed : ∀ t sizes, command ≠ .extend m t sizes) :
    next.numVars = store.numVars := by
  cases fate with
  | lasting _ _ still => exact still
  | grown n _ _ => exact absurd rfl (fixed n)
  | extended t sizes _ _ _ _ _ _ _ => exact absurd rfl (closed t sizes)
  | collected _ swept =>
      obtain ⟨_, freed, collected⟩ := collect_swept store next sound swept
      exact collected.vars

def GrantsNext (ws : Workspace) (m : Nat) (command : Command) (store next : Store) : Prop :=
  ∃ n, ws.granted m command = List.range' (store.numVars + 1) n ∧ next.numVars = store.numVars + n ∧
    n ≤ store.config.maxVars - store.numVars

section

variable (ws : Workspace) (m : Nat) (store next : Store) (found : ws.stores[m]? = some store)
include found

theorem refused_grants (command : Command) (after : (ws.perform command).workspace.stores[m]? = some next)
    (failure : Failure) (refused : ws.perform command = ws.refuse failure) : ws.GrantsNext m command store next := by
  rw [refused] at after
  have same : next = store := Option.some.inj (after.symm.trans found)
  exact ⟨0, granted_refused ws m command failure refused, congrArg Store.numVars same, Nat.zero_le _⟩

theorem new_vars_grants (n : Nat) (after : (ws.perform (.newVars m n)).workspace.stores[m]? = some next) :
    ws.GrantsNext m (.newVars m n) store next := by
  cases drawn : store.nextVar n with
  | error refusal =>
      exact refused_grants ws m store next found _ after _ (new_vars_refused ws m n store found refusal drawn)
  | ok first =>
      obtain rfl := BlockTable.next_var_ok store n first drawn
      have reply := new_vars_granted ws m n store _ found drawn
      have fits : n ≤ store.config.maxVars - store.numVars := by
        by_contra lacking
        rw [next_var_refused store n (.inl (Nat.lt_of_not_le lacking))] at drawn
        cases drawn
      refine ⟨n, ?_, ?_, fits⟩
      · simp only [granted, reply, if_pos]
      · rw [reply, set_store_found ws m store _ found] at after
        exact (congrArg Store.numVars (Option.some.inj after)).symm

theorem extend_grants (reachable : ws.Reachable) (narrow : store.config.maxVars < Var.bound) (t : Nat)
    (sizes : List Nat) (after : (ws.perform (.extend m t sizes)).workspace.stores[m]? = some next) :
    ws.GrantsNext m (.extend m t sizes) store next := by
  rcases extend_granted ws reachable m t store found sizes narrow with
    ⟨failure, refused⟩ | ⟨table, later, final, added, n, tabled, outcome, done, listed, spelt, vars, room⟩
  · exact refused_grants ws m store next found _ after failure refused
  refine ⟨n, ?_, ?_, room⟩
  · have stands : ((ws.setStore m final).setTable t later).tables[t]? = some later :=
      set_table_found (ws.setStore m final) t table later tabled
    have fresh : later.blocks.toList.drop table.size = added := by
      rw [listed, Array.toList_append, List.drop_left' (by rw [Array.length_toList]; rfl)]
    simp only [granted, outcome, done, stands, if_pos, fresh]
    exact sort_range _ _ n spelt
  · have put : ((ws.setStore m final).setTable t later).stores[m]? = some final :=
      set_store_found ws m store final found
    rw [done] at after
    rw [Option.some.inj (after.symm.trans put), vars]

theorem perform_granted (reachable : ws.Reachable) (narrow : store.config.maxVars < Var.bound) (command : Command)
    (after : (ws.perform command).workspace.stores[m]? = some next)
    (fate : ws.Fate (fun old new => new.numVars = old.numVars) m store command next) :
    ws.GrantsNext m command store next := by
  by_cases new : ∃ n, command = .newVars m n
  · obtain ⟨n, rfl⟩ := new
    exact new_vars_grants ws m store next found n after
  by_cases blocks : ∃ t sizes, command = .extend m t sizes
  · obtain ⟨t, sizes, rfl⟩ := blocks
    exact extend_grants ws m store next found reachable narrow t sizes after
  · have fixed : ∀ n, command ≠ .newVars m n := fun n same => new ⟨n, same⟩
    have closed : ∀ t sizes, command ≠ .extend m t sizes := fun t sizes same => blocks ⟨t, sizes, same⟩
    have sound := reachable_sound ws reachable m store found
    exact ⟨0, granted_quiet ws m command fixed closed, fate_vars ws m command store next sound fate fixed closed,
      Nat.zero_le _⟩

end

theorem run_granted (m : Nat) (commands : List Command) (store : Store)
    (found : (empty.run commands).stores[m]? = some store) (narrow : store.config.maxVars < Var.bound) :
    (empty.grants m commands).flatten = List.range' 1 store.numVars ∧ store.numVars ≤ store.config.maxVars := by
  refine run_history vars_lasting (fun _ _ => rfl) m (fun commands store => store.config.maxVars < Var.bound →
    (empty.grants m commands).flatten = List.range' 1 store.numVars ∧ store.numVars ≤ store.config.maxVars) ?_ ?_
    commands store found narrow
  · intro before command id config store absent _ made _
    rw [grants_snoc, List.flatten_append, grants_absent m before absent, granted_absent _ m command absent]
    obtain ⟨_, _, vars⟩ := create_vacant id config store made
    rw [vars]
    exact ⟨rfl, Nat.zero_le _⟩
  · intro before command store next found after known fate narrow
    rw [run_snoc] at after
    have reachable : (empty.run before).Reachable := ⟨before, rfl⟩
    obtain ⟨same, sameFound, steady⟩ := reachable_steady _ reachable command m store found
    obtain rfl := Option.some.inj (sameFound.symm.trans after)
    rw [steady.config] at narrow ⊢
    obtain ⟨sofar, limit⟩ := known narrow
    obtain ⟨n, more, vars, room⟩ := perform_granted _ m store same found reachable narrow command after fate
    refine ⟨?_, by omega⟩
    rw [grants_snoc, List.flatten_append, sofar, List.flatten_singleton, more, vars, Nat.add_comm store.numVars 1,
      List.range'_append_1]

structure Allocates (ws : Workspace) (m : Nat) (store : Store) : Prop where
  limited : store.numVars ≤ store.config.maxVars
  granted : ∀ n, n ≤ store.config.maxVars - store.numVars → store.numVars + 1 < Var.bound → ∃ next,
    ws.perform (.newVars m n) = ⟨.ok (.var (store.numVars + 1)), [.grown n (store.numVars + 1) next.numVars],
      ws.setStore m next⟩ ∧ store.Widened next n ∧
    (next.arena = store.arena ∧ next.counts = store.counts ∧ next.free = store.free) ∧
    (∀ i, i < store.numVars → next.levels[i]? = store.levels[i]?) ∧
    ∀ i, i < n → next.levels[store.numVars + i]? = some (.empty (store.numVars + 1 + i))
  refused : ∀ n, store.config.maxVars - store.numVars < n ∨ Var.bound ≤ store.numVars + 1 →
    ws.perform (.newVars m n) =
      ws.refuse (.refused (.outOfVariables n (store.config.maxVars - store.numVars)))
  extended : ∀ t table sizes, ws.tables[t]? = some table → table.owner = none ∨ table.owner = some store.id →
    sizes ≠ [] → (∀ size ∈ sizes, 0 < size) →
    BlockTable.total (sizes.map bitWidth) ≤ store.config.maxVars - store.numVars → ∃ later next added,
      (ws.perform (.extend m t sizes)).outcome = .ok (.index table.size) ∧
      (ws.perform (.extend m t sizes)).workspace = (ws.setStore m next).setTable t later ∧
      Allotted table later store next sizes added ∧ store.Widened next (BlockTable.total (sizes.map bitWidth))
  short : ∀ t table sizes, ws.tables[t]? = some table → table.owner = none ∨ table.owner = some store.id →
    sizes ≠ [] → (∀ size ∈ sizes, 0 < size) →
    store.config.maxVars - store.numVars < BlockTable.total (sizes.map bitWidth) →
      ws.perform (.extend m t sizes) = ws.refuse (.refused (.outOfVariables
        (BlockTable.total (sizes.map bitWidth)) (store.config.maxVars - store.numVars)))
  unchanged : ∀ t sizes failure, (ws.perform (.extend m t sizes)).outcome = .error failure →
    ws.perform (.extend m t sizes) = ws.refuse failure

theorem run_allocates (m : Nat) (commands : List Command) (store : Store)
    (found : (empty.run commands).stores[m]? = some store) (narrow : store.config.maxVars < Var.bound) :
    (empty.run commands).Allocates m store ∧
      (empty.grants m commands).flatten = List.range' 1 store.numVars := by
  obtain ⟨ledger, limit⟩ := run_granted m commands store found narrow
  have reachable : (empty.run commands).Reachable := ⟨commands, rfl⟩
  obtain ⟨book, _, trusted⟩ := reachable_trusted _ reachable
  have coherent := trusted m store found
  refine ⟨?_, ledger⟩
  constructor
  case limited => exact limit
  case granted =>
    intro n room next
    have drawn : store.nextVar n = .ok (store.numVars + 1) := if_pos ⟨next, room⟩
    have bounded : (store.grow n).numVars < Var.bound := by
      have vars : (store.grow n).numVars = store.numVars + n := rfl
      omega
    obtain ⟨old, new⟩ := grow_levels store coherent.sound n
    exact ⟨store.grow n, new_vars_granted _ m n store _ found drawn, follows_widened store (store.grow n)
      coherent.sound (grow_sound store coherent.sound n) (grow_follows store n) n rfl bounded rfl, ⟨rfl, rfl, rfl⟩,
      old, new⟩
  case refused =>
    exact fun n lacking => new_vars_refused _ m n store found _ (next_var_refused store n lacking)
  case extended =>
    intro t table sizes tabled owned some positive room
    obtain ⟨later, next, added, done, allotted, widened⟩ :=
      BlockTable.extend_widened book table sizes store coherent owned some positive narrow room
    obtain ⟨outcome, after⟩ := extend_reply _ m t store next table later sizes found tabled done
    exact ⟨later, next, added, outcome, after, allotted, widened⟩
  case short =>
    intro t table sizes tabled owned some positive lacking
    exact extend_refused _ m t store table sizes found tabled _
      (BlockTable.plan_extend_refused table sizes store owned some positive lacking)
  case unchanged =>
    intro t sizes failure failed
    rcases extend_granted _ reachable m t store found sizes narrow with
      ⟨other, refused⟩ | ⟨_, _, _, _, _, _, outcome, _⟩
    · rw [refused] at failed ⊢
      rw [Except.error.inj failed]
    · exact nomatch failed.symm.trans outcome

-- Blocks are taken down and collected between the grants, and a request is
-- turned down.
theorem resumed_allocates :
    ∃ (commands : List Command) (store : Store),
      commands = [.newStore { maxVars := 10 }, .newVars 0 2, .newTable, .extend 0 0 [2, 4], .teardown 0 0,
        .collect 0, .newVars 0 20, .extend 0 0 [4]] ∧
      (empty.run commands).stores[0]? = some store ∧ store.config.maxVars < Var.bound ∧
      empty.grants 0 commands = [[], [1, 2], [], [3, 4, 5], [], [], [], [6, 7]] ∧
      (empty.run commands).Allocates 0 store ∧
      (empty.grants 0 commands).flatten = List.range' 1 store.numVars := by
  obtain ⟨commands, named⟩ : ∃ commands : List Command, commands = [.newStore { maxVars := 10 }, .newVars 0 2,
    .newTable, .extend 0 0 [2, 4], .teardown 0 0, .collect 0, .newVars 0 20, .extend 0 0 [4]] := ⟨_, rfl⟩
  have limit : (empty.run commands).stores[0]?.map (·.config.maxVars) = some 10 := by
    rw [named]
    decide +kernel
  have given : empty.grants 0 commands = [[], [1, 2], [], [3, 4, 5], [], [], [], [6, 7]] := by
    rw [named]
    decide +kernel
  obtain ⟨store, found, ten⟩ := Option.map_eq_some_iff.mp limit
  have narrow : store.config.maxVars < Var.bound := by
    rw [ten]
    decide
  obtain ⟨allocates, ledger⟩ := run_allocates 0 commands store found narrow
  exact ⟨commands, store, named, found, narrow, given, allocates, ledger⟩

end Workspace

end DomainDiagram
