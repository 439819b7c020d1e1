import DomainDiagram.Proofs.Binding
import DomainDiagram.Proofs.Interference

set_option autoImplicit false

namespace DomainDiagram

open Store

-- A client's program. It goes on with the functions that are answered, and
-- pauses where other requests may come in, for which it lists the functions
-- that it still needs. Some of what it rests on is for those requests to bring
-- about, and some of what comes out is to be checked.
inductive Script where
  | done
  | call (command : Command) (next : Ref → Script)
  | pause (kept : List Ref) (next : Script)
  | given (holds : Workspace → Prop) (next : Script)
  | check (holds : Workspace → Prop) (next : Script)

-- Every request of the script succeeds and every check holds, whatever
-- permitted requests come in at the pauses.
def Ensures (m t : Nat) : Script → Workspace → Journal → Prop
  | .done, _, _ => True
  | .call command next, ws, journal => ∃ r, (ws.perform command).outcome = .ok (.ref r) ∧
      Ensures m t (next r) (ws.perform command).workspace (⟨command, ws.perform command⟩ :: journal)
  | .pause kept next, ws, journal => ∀ later after, Course m t kept ws journal later after →
      Ensures m t next later after
  | .given holds next, ws, journal => holds ws → Ensures m t next ws journal
  | .check holds next, ws, journal => holds ws ∧ Ensures m t next ws journal

namespace Script

def gather {β : Type} (m : Nat) (one : β → List Ref → (Ref → Script) → Script) (kept : List Ref) :
    List β → Ref → (Ref → Script) → Script
  | [], sum, next => next sum
  | item :: rest, sum, next =>
      .pause (sum :: kept) (one item (sum :: kept) fun f =>
        .pause (f :: sum :: kept) (.call (.construct m (.combine .or sum f)) fun sum =>
          gather m one kept rest sum next))

end Script

namespace Workspace

def Supplies (ws : Workspace) (m : Nat) (command : Command) (fn : (Var → Bool) → Bool) : Prop :=
  ∃ (r : Ref) (store next : Store), ws.stores[m]? = some store ∧
    ws.perform command = ⟨.ok (.ref r), [], ws.setStore m next⟩ ∧ next.id = store.id ∧
    (∀ f, next.tally f = store.tally f) ∧
    (∀ f, store.Live f → next.Live f ∧ ∀ env, next.eval f env = store.eval f env) ∧
    next.Live r ∧ ∀ env, next.eval r env = fn env

theorem delivers_supplies {ε : Type} (ws : Workspace) (book : Book) (m : Nat) (command : Command) (store : Store)
    (fn : (Var → Bool) → Bool) (act : EStateM ε Store Ref) (found : ws.stores[m]? = some store)
    (sound : store.Sound) (delivers : Action.Delivers book act store fn)
    (reply : ∀ r next, act store = .ok r next → ws.perform command = ⟨.ok (.ref r), [], ws.setStore m next⟩) :
    ws.Supplies m command fn := by
  obtain ⟨r, next, done, ⟨follows, coherent⟩, tally, live, value⟩ := delivers
  exact ⟨r, store, next, found, reply r next done, follows.id, tally,
    follows_means book store next sound follows coherent, live, value⟩

structure Onward (ws : Workspace) (m : Nat) (later : Workspace) : Prop where
  store : ∀ store, ws.stores[m]? = some store →
    ∃ next, later.stores[m]? = some next ∧ next.id = store.id ∧ ∀ f, next.tally f = store.tally f
  tables : later.tables = ws.tables
  names : later.renamings = ws.renamings
  means : ∀ f fn, ws.Means m f fn → later.Means m f fn

theorem onward_refl (ws : Workspace) (m : Nat) : ws.Onward m ws :=
  ⟨fun store found => ⟨store, found, rfl, fun _ => rfl⟩, rfl, rfl, fun _ _ means => means⟩

theorem onward_trans (ws middle later : Workspace) (m : Nat) (first : ws.Onward m middle)
    (second : middle.Onward m later) : ws.Onward m later := by
  refine ⟨fun store found => ?_, second.tables.trans first.tables, second.names.trans first.names,
    fun f fn means => second.means f fn (first.means f fn means)⟩
  obtain ⟨next, there, id, tally⟩ := first.store store found
  obtain ⟨last, after, same, still⟩ := second.store next there
  exact ⟨last, after, same.trans id, fun f => (still f).trans (tally f)⟩

def Spares (ws : Workspace) (m n : Nat) : Prop := ∀ store, ws.stores[m]? = some store → store.Spares n

theorem onward_spares (ws later : Workspace) (m n : Nat) (onward : ws.Onward m later)
    (present : ∃ store, ws.stores[m]? = some store) (room : ws.Spares m n) : later.Spares m n := by
  intro other here f
  obtain ⟨store, found⟩ := present
  obtain ⟨next, there, _, tally⟩ := onward.store store found
  obtain rfl := Option.some.inj (there.symm.trans here)
  -- holds taken on the way have been given up again
  exact tally f ▸ room store found f

theorem supplies_onward (ws : Workspace) (m : Nat) (command : Command) (fn : (Var → Bool) → Bool)
    (supplies : ws.Supplies m command fn) : ∃ r later, ws.perform command = ⟨.ok (.ref r), [], later⟩ ∧
      ws.Onward m later ∧ later.Means m r fn := by
  obtain ⟨r, store, last, found, reply, same, tally, kept, live, value⟩ := supplies
  have there := set_store_found ws m store last found
  refine ⟨r, ws.setStore m last, reply, ⟨fun other here => ?_, rfl, rfl, ?_⟩, last, there, live, value⟩
  · obtain rfl := Option.some.inj (found.symm.trans here)
    exact ⟨last, there, same, tally⟩
  · rintro f gn ⟨other, here, fLive, fValue⟩
    obtain rfl := Option.some.inj (found.symm.trans here)
    obtain ⟨lastLive, agree⟩ := kept f fLive
    exact ⟨last, there, lastLive, fun env => (agree env).trans (fValue env)⟩

theorem supplies_congr (ws : Workspace) (m : Nat) (command : Command) (fn gn : (Var → Bool) → Bool)
    (same : ∀ env, fn env = gn env) (supplies : ws.Supplies m command fn) : ws.Supplies m command gn := by
  obtain ⟨r, store, next, found, reply, id, tally, kept, live, value⟩ := supplies
  exact ⟨r, store, next, found, reply, id, tally, kept, live, fun env => (value env).trans (same env)⟩

theorem supplies_combine (ws : Workspace) (reachable : ws.Reachable) (m : Nat) (op : Connective) (f g : Ref)
    (fn gn : (Var → Bool) → Bool) (left : ws.Means m f fn) (right : ws.Means m g gn) :
    ws.Supplies m (.construct m (.combine op f g)) fun env => op.eval (fn env) (gn env) := by
  obtain ⟨book, _, trusted⟩ := reachable_trusted ws reachable
  obtain ⟨store, found, fLive, fValue⟩ := left
  obtain ⟨other, here, gLive, gValue⟩ := right
  obtain rfl := Option.some.inj (found.symm.trans here)
  have coherent := trusted m store found
  have delivers := Action.gives_delivers book _ store _ (Action.gives_combine book op store coherent f g fLive gLive)
  refine supplies_congr ws m _ _ _ (fun env => by rw [fValue, gValue]) <|
    delivers_supplies ws book m _ store _ _ found coherent.sound delivers fun r next done => ?_
  exact construct_reply ws m store next _ r found done

theorem supplies_rename (ws : Workspace) (reachable : ws.Reachable) (m p : Nat) (names : Renaming)
    (current : ws.renamings[p]? = some names) (f : Ref) (fn : (Var → Bool) → Bool) (means : ws.Means m f fn)
    (allocated : ∀ store, ws.stores[m]? = some store → ∀ v, 0 < v → v ≤ store.numVars →
      0 < names.image v ∧ names.image v ≤ store.numVars) :
    ws.Supplies m (.rename m p f) fun env => fn fun v => env (names.image v) := by
  obtain ⟨book, booked, trusted⟩ := reachable_trusted ws reachable
  obtain ⟨store, found, live, value⟩ := means
  have coherent := trusted m store found
  have maps : store.Maps names.image f := maps_reaches store coherent.sound names.image f live fun _ node _ tests =>
    have inside := coherent.sound.allocated _ node tests
    allocated store found node.var inside.1 inside.2
  have delivers := Action.gives_delivers book _ store _ (Action.gives_rename book names
    (booked.current p names current) store coherent f live maps)
  refine supplies_congr ws m _ _ _ (fun env => value _) <|
    delivers_supplies ws book m _ store _ _ found coherent.sound delivers fun r next done => ?_
  exact rename_reply ws m p store next names f r found current done

end Workspace

section Rules

variable {m t id : Nat} {blocks : Array Block} {ws : Workspace} {journal : Journal}

theorem ensures_pause {kept : List Ref} {next : Script} (ready : Ready m t id blocks ws journal)
    (rest : ∀ later after, Ready m t id blocks later after → ws.Carries m kept later →
      Ensures m t next later after) : Ensures m t (.pause kept next) ws journal := by
  intro later after course
  obtain ⟨still, carries⟩ := course_ready m t id kept blocks ws later journal after course ready
  exact rest later after still carries

theorem ensures_call {command : Command} {next : Ref → Script} {fn : (Var → Bool) → Bool}
    (ready : Ready m t id blocks ws journal) (allowed : journal.Allows command)
    (supplies : ws.Supplies m command fn)
    (rest : ∀ r later after, Ready m t id blocks later after → (∀ kept, ws.Carries m kept later) →
      later.Means m r fn → Ensures m t (next r) later after) :
    Ensures m t (.call command next) ws journal := by
  obtain ⟨r, last, reply, onward, means⟩ := ws.supplies_onward m command fn supplies
  have after : (ws.perform command).workspace = last := congrArg Reply.workspace reply
  obtain ⟨store, found, identity⟩ := ready.rests.store
  obtain ⟨next, there, same, _⟩ := onward.store store found
  refine ⟨r, congrArg Reply.outcome reply, rest r _ _ ⟨?fair, ?room, ?rests⟩ ?carries ?means⟩
  case fair => exact .step ws journal command ready.fair allowed
  case room => exact after ▸ ws.onward_spares last m 3 onward ⟨store, found⟩ ready.room
  case rests =>
    rw [after]
    exact ⟨⟨next, there, same.trans identity⟩, onward.tables ▸ ready.rests.table⟩
  case carries => exact after ▸ fun _ f _ gn => onward.means f gn
  case means => exact after ▸ means

theorem ready_reachable (ready : Ready m t id blocks ws journal) : ws.Reachable :=
  fair_reachable ws journal ready.fair

theorem ready_fits {index : Nat} {block : Block} {store : Store} (ready : Ready m t id blocks ws journal)
    (listed : blocks[index]? = some block) (found : ws.stores[m]? = some store) : block.Fits store := by
  obtain ⟨own, ownFound, same⟩ := ready.rests.store
  obtain rfl := Option.some.inj (found.symm.trans ownFound)
  obtain ⟨table, tabled, owned, still⟩ := ready.rests.table
  exact (fair_accounted ws journal ready.fair).fitted m t store table found tabled (same ▸ owned) index block
    (still index block listed)

theorem supplies_quantify {q : Quantifier} {f : Ref} {fn : (Var → Bool) → Bool} {index : Nat} {block : Block}
    (ready : Ready m t id blocks ws journal) (means : ws.Means m f fn) (listed : blocks[index]? = some block) :
    ws.Supplies m (.construct m (.quantify q f block.varset)) fun env => q.across (Var.sorted block.vars) fn env := by
  obtain ⟨book, _, trusted⟩ := Workspace.reachable_trusted ws (ready_reachable ready)
  obtain ⟨store, found, live, value⟩ := means
  have coherent := trusted m store found
  have fits := ready_fits ready listed found
  have members := conjunction_members store coherent.sound block.varset fits.live block.vars fits.set
  have delivers := Action.gives_delivers book _ store _ (Action.gives_quantify book q store coherent f block.varset live
    fits.live (Var.sorted block.vars) members)
  refine Workspace.supplies_congr ws m _ _ _ (fun env => q.across_congr _ _ _ env fun inner _ => value inner) <|
    Workspace.delivers_supplies ws book m _ store _ _ found coherent.sound delivers fun r next done => ?_
  exact Workspace.construct_reply ws m store next _ r found done

theorem ensures_gather {β : Type} {one : β → List Ref → (Ref → Script) → Script} {kept : List Ref}
    {items : List β} {sum : Ref} {fn : (Var → Bool) → Bool} {next : Ref → Script} (meaning : β → (Var → Bool) → Bool)
    (ready : Ready m t id blocks ws journal) (means : ws.Means m sum fn)
    (single : ∀ item ∈ items, ∀ (kept : List Ref) (next : Ref → Script) (ws : Workspace) (journal : Journal),
      Ready m t id blocks ws journal →
      (∀ r later after, Ready m t id blocks later after → ws.Carries m kept later →
        later.Means m r (meaning item) → Ensures m t (next r) later after) →
      Ensures m t (one item kept next) ws journal)
    (rest : ∀ r later after, Ready m t id blocks later after → ws.Carries m kept later →
      later.Means m r (fun env => fn env || items.any fun item => meaning item env) →
      Ensures m t (next r) later after) :
    Ensures m t (Script.gather m one kept items sum next) ws journal := by
  -- Each turn the sum comes to stand for one more item; what is kept is carried
  -- over the three pauses and answers in between.
  induction items generalizing sum fn ws journal with
  | nil =>
      refine rest sum ws journal ready (fun _ _ _ same => same) ?_
      simpa only [List.any_nil, Bool.or_false] using means
  | cons item others ih =>
      refine ensures_pause ready fun first firstAfter firstReady start => ?_
      have sumFirst := start sum List.mem_cons_self fn means
      refine single item List.mem_cons_self _ _ first firstAfter firstReady
        fun f second secondAfter secondReady made fMeans => ?_
      have sumSecond := made sum List.mem_cons_self fn sumFirst
      refine ensures_pause secondReady fun third thirdAfter thirdReady waited => ?_
      have fThird := waited f List.mem_cons_self _ fMeans
      have sumThird := waited sum (List.mem_cons_of_mem f List.mem_cons_self) fn sumSecond
      have joins := third.supplies_combine (ready_reachable thirdReady) m .or _ _ _ _ sumThird fThird
      refine ensures_call thirdReady trivial joins fun r fourth fourthAfter fourthReady carries joined => ?_
      refine ih fourthReady joined (fun other later => single other (List.mem_cons_of_mem item later))
        fun total last lastAfter lastReady further sumLast => ?_
      refine rest total last lastAfter lastReady (fun g member gn old => ?_) ?_
      · have keptFirst := start g (List.mem_cons_of_mem sum member) gn old
        have keptSecond := made g (List.mem_cons_of_mem sum member) gn keptFirst
        have keptThird := waited g (List.mem_cons_of_mem f (List.mem_cons_of_mem sum member)) gn keptSecond
        exact further g member gn (carries kept g member gn keptThird)
      · simpa only [List.any_cons, Bool.or_assoc, Connective.eval] using sumLast

end Rules
end DomainDiagram
