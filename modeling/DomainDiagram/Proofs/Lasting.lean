import DomainDiagram.Proofs.Tables
import DomainDiagram.Proofs.Undisturbed

set_option autoImplicit false

namespace DomainDiagram

-- A relation from a store to later ones that no single change ends: neither
-- to the counts nor by a new node.
structure Store.Lasting (kept : Store → Store → Prop) : Prop where
  stay : ∀ store : Store, kept store store
  recount : ∀ (store : Store) (counts : Array Nat), kept store { store with counts := counts }
  place : ∀ (store : Store) (node : Node), kept store (store.place node).2
  onward : ∀ a b c : Store, kept a b → kept b c → kept a c

def Store.Forgetful (kept : Store → Store → Prop) : Prop :=
  ∀ (store : Store) (memo : Memo), kept store { store with memo := memo }

def Action.Lasts {ε α : Type} (kept : Store → Store → Prop) (act : EStateM ε Store α) : Prop :=
  ∀ store, Ends act store (fun _ next => kept store next) (fun _ next => kept store next)

namespace Action

open Store

section

variable {kept : Store → Store → Prop}

theorem lasts_get {ε β : Type} (next : Store → EStateM ε Store β) (rest : ∀ store, Lasts kept (next store)) :
    Lasts kept (get >>= next) := fun store => rest store store

theorem lasts_perform {α : Type} (act : Action α) (lasts : Lasts kept act) : Lasts kept (Request.perform act) :=
  fun store => ends_perform act store _ _ (lasts store)

variable (lasting : Store.Lasting kept)
include lasting

theorem lasts_pure {ε α : Type} (a : α) : Lasts (ε := ε) kept (pure a : EStateM ε Store α) :=
  lasting.stay

theorem lasts_throw {α : Type} (fault : Fault) : Lasts kept (throw fault : Action α) :=
  lasting.stay

theorem lasts_bind {ε α β : Type} (act : EStateM ε Store α) (next : α → EStateM ε Store β)
    (first : Lasts kept act) (rest : ∀ a, Lasts kept (next a)) : Lasts kept (act >>= next) := by
  intro store
  refine ends_bind act next store _ _ _ (first store) fun a later known => ?_
  exact ends_mono _ later _ _ _ _ (rest a later) (fun _ final => lasting.onward store later final known)
    (fun _ final => lasting.onward store later final known)

theorem lasts_inspect {α : Type} (look : Store → Except Fault α) : Lasts kept (inspect look) := by
  intro store
  unfold Ends inspect
  cases look store <;> exact lasting.stay store

theorem lasts_composes {ε : Type} : Composes (ε := ε) (Lasts kept) := ⟨lasts_pure lasting, lasts_bind lasting⟩

theorem lasts_branch (v : Var) (low high : Ref) : Lasts kept (branch v low high) := by
  refine lasts_bind lasting _ _ (lasts_inspect lasting _) fun _ => ?_
  split
  · exact lasts_pure lasting low
  · refine lasts_bind lasting _ _ (lasts_inspect lasting _) fun _ => ?_
    refine lasts_bind lasting _ _ (lasts_inspect lasting _) fun _ store => ?_
    cases found : store.find? ⟨v, low, high⟩ with
    | some f => simpa only [Ends, found] using lasting.stay store
    | none => simpa only [Ends, found] using lasting.place store ⟨v, low, high⟩

theorem lasts_literal (v : Var) (value : Bool) : Lasts kept (literal v value) := by
  cases value with
  | true => exact literal_true v ▸ lasts_branch lasting v 0 1
  | false => exact literal_false v ▸ lasts_branch lasting v 1 0

theorem lasts_cube (vars : List Var) : Lasts kept (cube vars) :=
  composes_foldrM (lasts_composes lasting) _ (fun v rest => lasts_branch lasting v 0 rest) (Var.sorted vars) 1

theorem lasts_hold (f : Ref) : Lasts kept (hold f) := by
  intro store
  refine ends_mono _ store _ _ _ _ (hold_recounts store f) ?_ ?_
  · rintro _ _ ⟨_, counts, rfl⟩
    exact lasting.recount store counts
  · rintro _ _ rfl
    exact lasting.stay _

theorem lasts_release (f : Ref) : Lasts kept (release f) := by
  intro store
  refine ends_mono _ store _ _ _ _ (release_recounts store f) ?_ ?_
  · rintro _ _ ⟨counts, rfl⟩
    exact lasting.recount store counts
  · rintro _ _ rfl
    exact lasting.stay _

theorem lasts_after_check {α β : Type} (check : Store → Except Refusal α) (act : α → Action β)
    (lasts : ∀ a, Lasts kept (act a)) : Lasts kept (Request.afterCheck check act) := by
  intro store
  unfold Ends Request.afterCheck
  cases check store with
  | ok a => exact lasts_perform (act a) (lasts a) store
  | error refusal => exact lasting.stay store

theorem lasts_make_block (index size : Nat) (vars : List Var) :
    Lasts kept (BlockTable.makeBlock index size vars) := by
  refine lasts_bind lasting _ _ (lasts_cube lasting vars) fun varset => ?_
  exact lasts_bind lasting _ _ (lasts_hold lasting varset) fun held => lasts_pure lasting _

theorem extend_lasts (table : BlockTable) (sizes : List Nat) (store : Store) :
    Ends (table.extend sizes) store
      (fun _ next => kept store next ∨ ∃ rows, table.planExtend sizes store = .ok rows ∧ rows ≠ [] ∧
        kept (store.grow (BlockTable.total (rows.map (·.2.length)))) next)
      (fun _ next => kept store next ∨ ∃ rows, table.planExtend sizes store = .ok rows ∧ rows ≠ [] ∧
        kept (store.grow (BlockTable.total (rows.map (·.2.length)))) next) := by
  unfold BlockTable.extend Ends Request.afterCheck
  cases planned : table.planExtend sizes store with
  | error refusal => exact .inl (lasting.stay store)
  | ok rows =>
      refine ends_perform (table.append rows) store _ _ ?_
      unfold BlockTable.append
      cases filled : rows.isEmpty with
      | true => exact .inl (lasting.stay store)
      | false =>
          have some : rows ≠ [] := by simpa using filled
          refine ends_mono _ store _ _ _ _ ?_ (fun _ next held => .inr ⟨rows, rfl, some, held⟩)
            (fun _ next held => .inr ⟨rows, rfl, some, held⟩)
          refine lasts_bind lasting _ _ (composes_mapM (lasts_composes lasting) _ (fun numbered => ?_) _)
            (fun blocks => lasts_get _ fun _ => lasts_pure lasting _) (store.grow _)
          obtain ⟨⟨size, vars⟩, index⟩ := numbered
          exact lasts_make_block lasting index size vars

theorem lasts_release_all (blocks : List Block) : Lasts kept (BlockTable.releaseAll blocks) := by
  induction blocks with
  | nil => exact lasts_pure lasting ()
  | cons block rest ih => exact lasts_bind lasting _ _ (lasts_release lasting block.varset) fun _ => ih

variable (forgetful : Store.Forgetful kept)
include forgetful

theorem lasts_memoized (key : OpKey) (work : Action Ref) (worked : Lasts kept work) :
    Lasts kept (memoized key work) := by
  refine lasts_bind lasting _ _ (fun store => forgetful store _) fun found => ?_
  cases found with
  | some result => exact lasts_pure lasting result
  | none =>
      refine lasts_bind lasting _ _ worked fun result => ?_
      exact lasts_bind lasting _ _ (fun store => forgetful store _) fun _ => lasts_pure lasting result

theorem lasts_combine_from (op : Connective) (steps : Nat) (f g : Ref) :
    Lasts kept (combineFrom op steps f g) := by
  induction steps generalizing f g with
  | zero => exact lasts_throw lasting .endlessPath
  | succ steps ih =>
      unfold combineFrom
      cases op.shortcut f g with
      | some result => exact lasts_pure lasting result
      | none =>
          refine lasts_memoized lasting forgetful _ _ ?_
          refine lasts_bind lasting _ _ (lasts_inspect lasting _) fun above => ?_
          refine lasts_bind lasting _ _ (lasts_inspect lasting _) fun beside => ?_
          refine lasts_bind lasting _ _ (lasts_inspect lasting _) fun left => ?_
          refine lasts_bind lasting _ _ (lasts_inspect lasting _) fun right => ?_
          refine lasts_bind lasting _ _ (ih left.1 right.1) fun low => ?_
          refine lasts_bind lasting _ _ (ih left.2 right.2) fun high => ?_
          exact lasts_branch lasting _ low high

theorem lasts_combine (op : Connective) (f g : Ref) : Lasts kept (combine op f g) :=
  lasts_get _ fun store => lasts_combine_from lasting forgetful op store.steps f g

theorem lasts_negate_from (steps : Nat) (f : Ref) : Lasts kept (negateFrom steps f) := by
  induction steps generalizing f with
  | zero => exact lasts_throw lasting .endlessPath
  | succ steps ih =>
      unfold negateFrom
      split
      · exact lasts_pure lasting _
      · refine lasts_memoized lasting forgetful _ _ ?_
        refine lasts_bind lasting _ _ (lasts_inspect lasting _) fun node => ?_
        refine lasts_bind lasting _ _ (ih node.low) fun low => ?_
        refine lasts_bind lasting _ _ (ih node.high) fun high => ?_
        exact lasts_branch lasting node.var low high

theorem lasts_negate (f : Ref) : Lasts kept (negate f) :=
  lasts_get _ fun store => lasts_negate_from lasting forgetful store.steps f

theorem lasts_choose_from (steps : Nat) (f g h : Ref) : Lasts kept (chooseFrom steps f g h) := by
  induction steps generalizing f g h with
  | zero => exact lasts_throw lasting .endlessPath
  | succ steps ih =>
      unfold chooseFrom
      split
      · exact lasts_pure lasting g
      split
      · exact lasts_pure lasting h
      split
      · exact lasts_pure lasting f
      split
      · exact lasts_negate lasting forgetful f
      split
      · exact lasts_combine lasting forgetful .or f h
      split
      · exact lasts_combine lasting forgetful .and f g
      · refine lasts_memoized lasting forgetful _ _ ?_
        refine lasts_bind lasting _ _ (lasts_inspect lasting _) fun first => ?_
        refine lasts_bind lasting _ _ (lasts_inspect lasting _) fun second => ?_
        refine lasts_bind lasting _ _ (lasts_inspect lasting _) fun third => ?_
        refine lasts_bind lasting _ _ (lasts_inspect lasting _) fun fHalves => ?_
        refine lasts_bind lasting _ _ (lasts_inspect lasting _) fun gHalves => ?_
        refine lasts_bind lasting _ _ (lasts_inspect lasting _) fun hHalves => ?_
        refine lasts_bind lasting _ _ (ih fHalves.1 gHalves.1 hHalves.1) fun low => ?_
        refine lasts_bind lasting _ _ (ih fHalves.2 gHalves.2 hHalves.2) fun high => ?_
        exact lasts_branch lasting _ low high

theorem lasts_choose (f g h : Ref) : Lasts kept (choose f g h) :=
  lasts_get _ fun store => lasts_choose_from lasting forgetful store.steps f g h

theorem lasts_quantify_from (q : Quantifier) (steps : Nat) (f set : Ref) :
    Lasts kept (quantifyFrom q steps f set) := by
  induction steps generalizing f set with
  | zero => exact lasts_throw lasting .endlessPath
  | succ steps ih =>
      unfold quantifyFrom
      split
      · exact lasts_pure lasting f
      refine lasts_bind lasting _ _ (lasts_inspect lasting _) fun node => ?_
      refine lasts_bind lasting _ _ (lasts_inspect lasting _) fun part => ?_
      split
      · exact lasts_pure lasting f
      refine lasts_memoized lasting forgetful _ _ ?_
      refine lasts_bind lasting _ _ (lasts_inspect lasting _) fun member => ?_
      split
      · refine lasts_bind lasting _ _ (ih node.low member.high) fun low => ?_
        refine lasts_bind lasting _ _ (ih node.high member.high) fun high => ?_
        exact lasts_combine lasting forgetful q.connective low high
      · refine lasts_bind lasting _ _ (ih node.low part) fun low => ?_
        refine lasts_bind lasting _ _ (ih node.high part) fun high => ?_
        exact lasts_branch lasting node.var low high

theorem lasts_quantify (q : Quantifier) (f set : Ref) : Lasts kept (quantify q f set) :=
  lasts_get _ fun store => lasts_quantify_from lasting forgetful q store.steps f set

theorem lasts_rename_from (names : Renaming) (steps : Nat) (f : Ref) :
    Lasts kept (renameFrom names steps f) := by
  induction steps generalizing f with
  | zero => exact lasts_throw lasting .endlessPath
  | succ steps ih =>
      unfold renameFrom
      split
      · exact lasts_pure lasting f
      · refine lasts_memoized lasting forgetful _ _ ?_
        refine lasts_bind lasting _ _ (lasts_inspect lasting _) fun node => ?_
        refine lasts_bind lasting _ _ (ih node.low) fun low => ?_
        refine lasts_bind lasting _ _ (ih node.high) fun high => ?_
        refine lasts_bind lasting _ _ (lasts_literal lasting _ true) fun test => ?_
        exact lasts_choose lasting forgetful test high low

theorem lasts_rename (names : Renaming) (f : Ref) : Lasts kept (rename names f) := by
  unfold rename
  split
  · exact lasts_pure lasting f
  · exact lasts_get _ fun store => lasts_rename_from lasting forgetful names store.steps f

theorem lasts_construction (construction : Construction) : Lasts kept construction.run := by
  cases construction with
  | literal v value => exact lasts_literal lasting v value
  | branch v low high => exact lasts_branch lasting v low high
  | combine op f g => exact lasts_combine lasting forgetful op f g
  | negate f => exact lasts_negate lasting forgetful f
  | choose f g h => exact lasts_choose lasting forgetful f g h
  | conjunction fs => exact composes_foldlM (lasts_composes lasting) _ (lasts_combine lasting forgetful .and) fs 1
  | disjunction fs => exact composes_foldlM (lasts_composes lasting) _ (lasts_combine lasting forgetful .or) fs 0
  | cube vars => exact lasts_cube lasting vars
  | quantify q f set => exact lasts_quantify lasting forgetful q f set

theorem lasts_overlap (table : BlockTable) (left right : Nat) : Lasts kept (table.overlap left right) := by
  refine lasts_after_check lasting _ _ fun blocks => ?_
  refine lasts_bind lasting _ _ (lasts_combine lasting forgetful .and _ _) fun varset => ?_
  exact lasts_bind lasting _ _ (lasts_hold lasting varset) fun held => lasts_pure lasting _

theorem lasts_spell (bits : List Var) (value : Nat) (done : Ref) : Lasts kept (spell bits value done) := by
  induction bits generalizing value done with
  | nil => exact lasts_pure lasting done
  | cons v rest ih =>
      refine lasts_bind lasting _ _ (lasts_hold lasting done) fun _ => ?_
      refine lasts_bind lasting _ _ (lasts_literal lasting v _) fun bit => ?_
      refine lasts_bind lasting _ _ (lasts_combine lasting forgetful .and bit done) fun next => ?_
      exact lasts_bind lasting _ _ (lasts_release lasting done) fun _ => ih (value / 2) next

theorem lasts_at_most (bits : List Var) (value : Nat) (done : Ref) : Lasts kept (atMost bits value done) := by
  induction bits generalizing value done with
  | nil => exact lasts_bind lasting _ _ (lasts_release lasting done) fun _ => lasts_pure lasting done
  | cons v rest ih =>
      refine lasts_bind lasting _ _ (lasts_literal lasting v false) fun bit => ?_
      refine lasts_bind lasting _ _ (lasts_combine lasting forgetful _ bit done) fun next => ?_
      refine lasts_bind lasting _ _ (lasts_hold lasting next) fun _ => ?_
      exact lasts_bind lasting _ _ (lasts_release lasting done) fun _ => ih (value / 2) next

theorem lasts_alike (pairs : List (Var × Var)) (done : Ref) : Lasts kept (alike pairs done) := by
  induction pairs generalizing done with
  | nil => exact lasts_bind lasting _ _ (lasts_release lasting done) fun _ => lasts_pure lasting done
  | cons pair rest ih =>
      refine lasts_bind lasting _ _ (lasts_literal lasting pair.1 true) fun left => ?_
      refine lasts_bind lasting _ _ (lasts_literal lasting pair.2 true) fun right => ?_
      refine lasts_bind lasting _ _ (lasts_combine lasting forgetful .biimp left right) fun bit => ?_
      refine lasts_bind lasting _ _ (lasts_hold lasting bit) fun _ => ?_
      refine lasts_bind lasting _ _ (lasts_combine lasting forgetful .and done bit) fun next => ?_
      refine lasts_bind lasting _ _ (lasts_hold lasting next) fun _ => ?_
      refine lasts_bind lasting _ _ (lasts_release lasting bit) fun _ => ?_
      exact lasts_bind lasting _ _ (lasts_release lasting done) fun _ => ih next

theorem lasts_union (sets : List Ref) (done : Ref) : Lasts kept (union sets done) := by
  induction sets generalizing done with
  | nil => exact lasts_pure lasting done
  | cons set rest ih =>
      refine lasts_bind lasting _ _ (lasts_hold lasting done) fun _ => ?_
      refine lasts_bind lasting _ _ (lasts_combine lasting forgetful .and set done) fun next => ?_
      exact lasts_bind lasting _ _ (lasts_release lasting done) fun _ => ih next

theorem lasts_encoding (table : BlockTable) (encoding : Encoding) : Lasts kept (encoding.run table) := by
  cases encoding with
  | value index n =>
      exact lasts_after_check lasting _ _ fun block => lasts_spell lasting forgetful block.bits n 1
  | legal index =>
      exact lasts_after_check lasting _ _ fun block => lasts_at_most lasting forgetful block.bits _ 1
  | equal left right =>
      refine lasts_after_check lasting _ _ fun blocks => ?_
      exact lasts_bind lasting _ _ (lasts_hold lasting 1) fun start => lasts_alike lasting forgetful _ start
  | varset indices =>
      exact lasts_after_check lasting _ _ fun sets => lasts_union lasting forgetful sets 1

end

end Action

namespace Workspace

inductive Fate (kept : Store → Store → Prop) (ws : Workspace) (m : Nat) (store : Store) :
    Command → Store → Prop where
  | lasting (command : Command) (next : Store) (still : kept store next) : Fate kept ws m store command next
  | grown (n : Nat) (first : Var) (granted : store.nextVar n = .ok first) :
      Fate kept ws m store (.newVars m n) (store.grow n)
  | extended (t : Nat) (sizes : List Nat) (table : BlockTable) (rows : List (Nat × List Var)) (next : Store)
      (tabled : ws.tables[t]? = some table) (planned : table.planExtend sizes store = .ok rows)
      (filled : rows ≠ []) (still : kept (store.grow (BlockTable.total (rows.map (·.2.length)))) next) :
      Fate kept ws m store (.extend m t sizes) next
  | collected (next : Store)
      (swept : Action.Ends Action.collect store (fun _ later => later = next) fun _ later => later = next) :
      Fate kept ws m store (.collect m) next

theorem collect_swept (store next : Store) (sound : store.Sound)
    (swept : Action.Ends Action.collect store (fun _ later => later = next) fun _ later => later = next) :
    next.Sound ∧ ∃ freed, store.Collected next freed := by
  obtain ⟨sweep, later, done, after, collected⟩ := Action.collect_collected store sound
  obtain rfl := Action.ends_ok _ store later sweep _ _ swept done
  exact ⟨after, sweep.freed, collected⟩

section

variable {kept : Store → Store → Prop} (lasting : Store.Lasting kept) (ws : Workspace) (m : Nat) (store : Store)
  (found : ws.stores[m]? = some store)
include lasting found

theorem fate_same (command : Command) (later : Workspace) (same : later.stores = ws.stores) :
    ∃ next, later.stores[m]? = some next ∧ ws.Fate kept m store command next :=
  ⟨store, same ▸ found, .lasting command store (lasting.stay store)⟩

-- Other stores do not notice, so what is put at m is all that matters.
theorem fate_set (command : Command) (k : Nat) (old later : Store) (worked : ws.stores[k]? = some old)
    (here : k = m → old = store → ws.Fate kept m store command later) :
    ∃ next, (ws.setStore k later).stores[m]? = some next ∧ ws.Fate kept m store command next := by
  by_cases same : k = m
  · subst same
    exact ⟨later, set_store_found ws k old later worked, here rfl (Option.some.inj (worked.symm.trans found))⟩
  · exact ⟨store, (Array.getElem?_setIfInBounds_ne same).trans found, .lasting command store (lasting.stay store)⟩

theorem fate_on_store {α : Type} (command : Command) (k : Nat) (request : Request α)
    (answer : α → Store → Workspace → Reply)
    (still : ∀ a store later, (answer a store later).workspace.stores = later.stores)
    (holds : Store → Store → Prop)
    (ends : ∀ old, Action.Ends request old (fun _ next => holds old next) fun _ next => holds old next)
    (each : ∀ next, k = m → holds store next → ws.Fate kept m store command next) :
    ∃ next, (ws.onStore k request answer).workspace.stores[m]? = some next ∧
      ws.Fate kept m store command next := by
  rw [on_store_run]
  cases worked : ws.stores[k]? with
  | none => exact fate_same lasting ws m store found command _ rfl
  | some old =>
      have set : ∀ later, holds old later → ∃ next, (ws.setStore k later).stores[m]? = some next ∧
          ws.Fate kept m store command next := by
        intro later held
        exact fate_set lasting ws m store found command k old later worked
          fun here same => each later here (same ▸ held)
      have known := ends old
      unfold Action.Ends at known
      cases outcome : request old with
      | ok a later =>
          rw [outcome] at known
          simp only [outcome, still]
          exact set later known
      | error failure later =>
          rw [outcome] at known
          simp only [outcome, refuse]
          exact set later known

theorem fate_lasts {α : Type} (command : Command) (k : Nat) (request : Request α)
    (answer : α → Store → Workspace → Reply)
    (still : ∀ a store later, (answer a store later).workspace.stores = later.stores)
    (lasts : Action.Lasts kept request) :
    ∃ next, (ws.onStore k request answer).workspace.stores[m]? = some next ∧
      ws.Fate kept m store command next :=
  fate_on_store lasting ws m store found command k request answer still kept lasts
    fun next _ held => .lasting command next held

theorem fate_found {α : Type} (command : Command) (named : Except Failure α) (next : α → Reply)
    (each : ∀ a, named = .ok a → ∃ later, (next a).workspace.stores[m]? = some later ∧
      ws.Fate kept m store command later) :
    ∃ later, (ws.found named next).workspace.stores[m]? = some later ∧
      ws.Fate kept m store command later := by
  unfold Workspace.found
  cases outcome : named with
  | ok a => exact each a outcome
  | error failure => exact fate_same lasting ws m store found command _ rfl

theorem fate_teardown (k t : Nat) : ∃ next, (ws.teardown k t).workspace.stores[m]? = some next ∧
    ws.Fate kept m store (.teardown k t) next := by
  rw [teardown_run]
  refine fate_found lasting ws m store found _ _ _ fun table _ => ?_
  cases worked : ws.stores[k]? with
  | none => exact fate_same lasting ws m store found _ _ rfl
  | some old =>
      have known : kept old (table.teardown old).2.2 := by
        unfold BlockTable.teardown
        cases table.checkOwner old with
        | error refusal => exact lasting.stay old
        | ok _ =>
            have lasts := Action.lasts_release_all lasting table.blocks.toList old
            unfold Action.Ends at lasts
            cases outcome : BlockTable.releaseAll table.blocks.toList old <;> simpa only [outcome] using lasts
      have set := fate_set lasting ws m store found (.teardown k t) k old (table.teardown old).2.2 worked
        fun _ same => .lasting _ _ (same ▸ known)
      simp only
      split <;> exact set

theorem perform_fate (forgetful : Store.Forgetful kept) (command : Command) :
    ∃ next, (ws.perform command).workspace.stores[m]? = some next ∧ ws.Fate kept m store command next := by
  have same := fate_same lasting ws m store found
  have named := fun {α : Type} => fate_found lasting ws m store found (α := α)
  have construct : ∀ (command : Command) (k : Nat) (act : Action Ref), Action.Lasts kept act →
      ∃ next, (ws.construct k act).workspace.stores[m]? = some next ∧ ws.Fate kept m store command next :=
    fun command k act lasts => fate_lasts lasting ws m store found command k _ _ (fun _ _ _ => rfl)
      (Action.lasts_perform act lasts)
  cases command with
  | newStore config =>
      refine ⟨store, ?_, .lasting _ store (lasting.stay store)⟩
      rw [perform, new_store_run]
      split
      · split
        · exact push_found ws.stores _ store m found
        · exact found
      · exact found
  | newVars k n =>
      refine fate_on_store lasting ws m store found _ k _ _ (fun _ _ _ => rfl)
        (fun old next => next = old ∨ ∃ first, old.nextVar n = .ok first ∧ next = old.grow n) (fun old => ?_) ?_
      · unfold Action.Ends Request.newVars Request.afterCheck
        cases drawn : old.nextVar n with
        | ok first =>
            simp only [drawn]
            exact .inr ⟨first, rfl, rfl⟩
        | error refusal =>
            simp only [drawn, true_or]
      · rintro next rfl (rfl | ⟨first, granted, rfl⟩)
        · exact .lasting _ next (lasting.stay next)
        · exact .grown n first granted
  | construct k construction => exact construct _ k _ (Action.lasts_construction lasting forgetful construction)
  | rename k p f => exact named _ _ _ fun names _ => construct _ k _ (Action.lasts_rename lasting forgetful names f)
  | hold k f => exact construct _ k _ (Action.lasts_hold lasting f)
  | release k f =>
      exact fate_lasts lasting ws m store found _ k _ _ (fun _ _ _ => rfl)
        (Action.lasts_perform _ (Action.lasts_release lasting f))
  | collect k =>
      refine fate_on_store lasting ws m store found _ k _ _ (fun _ _ _ => rfl)
        (fun old next => Action.Ends Action.collect old (fun _ later => later = next) fun _ later => later = next)
        (fun old => Action.ends_perform _ old _ _ ?_) ?_
      · unfold Action.Ends
        cases Action.collect old <;> rfl
      · rintro next rfl swept
        exact .collected next swept
  | newTable => exact same _ _ rfl
  | extend k t sizes =>
      refine named _ _ _ fun table tabled => ?_
      refine fate_on_store lasting ws m store found _ k _ _ (fun _ _ _ => rfl)
        (fun old next => kept old next ∨ ∃ rows, table.planExtend sizes old = .ok rows ∧ rows ≠ [] ∧
          kept (old.grow (BlockTable.total (rows.map (·.2.length)))) next) (fun old => ?_) ?_
      · exact Action.extend_lasts lasting table sizes old
      · rintro next rfl (held | ⟨rows, planned, filled, held⟩)
        · exact .lasting _ next held
        · exact .extended t sizes table rows next (table_found ws t table tabled) planned filled held
  | overlap k t left right =>
      exact named _ _ _ fun table _ => fate_lasts lasting ws m store found _ k _ _ (fun _ _ _ => rfl)
        (Action.lasts_overlap lasting forgetful table left right)
  | teardown k t => exact fate_teardown lasting ws m store found k t
  | encode k t encoding =>
      exact named _ _ _ fun table _ => fate_lasts lasting ws m store found _ k _ _ (fun _ _ _ => rfl)
        (Action.lasts_encoding lasting forgetful table encoding)
  | newRenaming => exact same _ _ rfl
  | copyRenaming p => exact named _ _ _ fun names _ => same _ _ rfl
  | clearRenaming p => exact named _ _ _ fun names _ => same _ _ rfl
  | pair k p v w => exact same _ _ (pair_stores ws k p v w)
  | pairBlocks k t p source target => exact same _ _ (pair_as_stores ws k t p _)
  | pairAll k t p pairs => exact same _ _ (pair_as_stores ws k t p _)

end

section

variable (ws : Workspace)

theorem on_store_size {α : Type} (k : Nat) (request : Request α) (answer : α → Store → Workspace → Reply)
    (still : ∀ a store later, (answer a store later).workspace.stores = later.stores) :
    (ws.onStore k request answer).workspace.stores.size = ws.stores.size := by
  rcases on_store_cases ws k request answer with
    absent | ⟨store, _, ⟨a, next, _, answered⟩ | ⟨failure, next, _, refused⟩⟩
  · rw [absent]
    rfl
  · rw [answered, still, setStore, Array.size_setIfInBounds]
  · rw [refused, refuse, setStore, Array.size_setIfInBounds]

theorem found_size {α : Type} (named : Except Failure α) (next : α → Reply)
    (each : ∀ a, (next a).workspace.stores.size = ws.stores.size) :
    (ws.found named next).workspace.stores.size = ws.stores.size := by
  unfold found
  cases named with
  | ok a => exact each a
  | error failure => rfl

theorem teardown_size (k t : Nat) : (ws.teardown k t).workspace.stores.size = ws.stores.size := by
  rw [teardown_run]
  refine found_size ws _ _ fun table => ?_
  cases ws.stores[k]? with
  | none => rfl
  | some store =>
      have set : ∀ next, (ws.setStore k next).stores.size = ws.stores.size := fun next =>
        Array.size_setIfInBounds ..
      simp only
      split <;> exact set _

theorem perform_size (command : Command) (other : ∀ config, command ≠ .newStore config) :
    (ws.perform command).workspace.stores.size = ws.stores.size := by
  have construct := fun k act => on_store_size ws k (.perform act) (fun f _ ws => ⟨.ok (.ref f), [], ws⟩)
    fun _ _ _ => rfl
  cases command with
  | newStore config => exact absurd rfl (other config)
  | newVars k n => exact on_store_size ws k _ _ fun _ _ _ => rfl
  | construct k construction => exact construct k _
  | rename k p f => exact found_size ws _ _ fun names => construct k _
  | hold k f => exact construct k _
  | release k f => exact on_store_size ws k _ _ fun _ _ _ => rfl
  | collect k => exact on_store_size ws k _ _ fun _ _ _ => rfl
  | newTable => rfl
  | extend k t sizes => exact found_size ws _ _ fun table => on_store_size ws k _ _ fun _ _ _ => rfl
  | overlap k t left right => exact found_size ws _ _ fun table => on_store_size ws k _ _ fun _ _ _ => rfl
  | teardown k t => exact teardown_size ws k t
  | encode k t encoding => exact found_size ws _ _ fun table => on_store_size ws k _ _ fun _ _ _ => rfl
  | newRenaming => rfl
  | copyRenaming p => exact found_size ws _ _ fun names => rfl
  | clearRenaming p => exact found_size ws _ _ fun names => rfl
  | pair k p v w => exact congrArg Array.size (pair_stores ws k p v w)
  | pairBlocks k t p source target => exact congrArg Array.size (pair_as_stores ws k t p _)
  | pairAll k t p pairs => exact congrArg Array.size (pair_as_stores ws k t p _)

theorem perform_created (command : Command) (m : Nat) (absent : ws.stores[m]? = none) (next : Store)
    (after : (ws.perform command).workspace.stores[m]? = some next) :
    ∃ config, Store.create ws.nextStore config = .ok next := by
  have outside : ws.stores.size ≤ m := Array.getElem?_eq_none_iff.mp absent
  by_cases fresh : ∃ config, command = .newStore config
  · obtain ⟨config, rfl⟩ := fresh
    rw [perform, new_store_run] at after
    split at after
    · cases made : Store.create ws.nextStore config with
      | ok store =>
          rw [made] at after
          rcases push_cases ws.stores store next m after with ⟨_, rfl⟩ | before
          · exact ⟨config, made⟩
          · cases absent.symm.trans before
      | error fault =>
          rw [made] at after
          cases absent.symm.trans after
    · cases absent.symm.trans after
  · have same := perform_size ws command fun config new => fresh ⟨config, new⟩
    have inside := (Array.getElem?_eq_some_iff.mp after).1
    omega

end

theorem run_snoc (ws : Workspace) (before : List Command) (command : Command) :
    ws.run (before ++ [command]) = ((ws.run before).perform command).workspace := List.foldl_append ..

theorem create_vacant (id : Nat) (config : Config) (store : Store) (made : Store.create id config = .ok store) :
    store.arena.size = 2 ∧ store.free = [] ∧ store.numVars = 0 := by
  rw [create_run] at made
  split at made
  · obtain rfl := Except.ok.inj made
    exact ⟨rfl, rfl, rfl⟩
  · cases made

theorem run_history {kept : Store → Store → Prop} (lasting : Store.Lasting kept)
    (forgetful : Store.Forgetful kept) (m : Nat)
    (holds : List Command → Store → Prop)
    (created : ∀ before command id config store, (empty.run before).stores[m]? = none →
      (empty.run (before ++ [command])).stores[m]? = some store → Store.create id config = .ok store →
      holds (before ++ [command]) store)
    (step : ∀ before command store next, (empty.run before).stores[m]? = some store →
      (empty.run (before ++ [command])).stores[m]? = some next → holds before store →
      (empty.run before).Fate kept m store command next → holds (before ++ [command]) next)
    (commands : List Command) (store : Store) (found : (empty.run commands).stores[m]? = some store) :
    holds commands store := by
  induction commands using List.reverseRecOn generalizing store with
  | nil => exact nomatch found
  | append_singleton before command ih =>
      rw [run_snoc] at found
      cases there : (empty.run before).stores[m]? with
      | none =>
          obtain ⟨config, made⟩ := perform_created _ command m there store found
          exact created before command _ config store there ((run_snoc empty before command).symm ▸ found) made
      | some old =>
          obtain ⟨next, after, fate⟩ := perform_fate lasting (empty.run before) m old there forgetful command
          obtain rfl := Option.some.inj (found.symm.trans after)
          exact step before command old store there ((run_snoc empty before command).symm ▸ found) (ih old there) fate

theorem absent_before (m : Nat) (before : List Command) (command : Command)
    (absent : (empty.run (before ++ [command])).stores[m]? = none) : (empty.run before).stores[m]? = none := by
  cases there : (empty.run before).stores[m]? with
  | none => rfl
  | some store =>
      obtain ⟨next, after, _⟩ := reachable_steady (empty.run before) ⟨before, rfl⟩ command m store there
      rw [run_snoc, after] at absent
      exact nomatch absent

end Workspace
end DomainDiagram
