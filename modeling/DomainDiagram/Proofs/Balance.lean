import DomainDiagram.Proofs.Settling
import DomainDiagram.Query

set_option autoImplicit false

namespace DomainDiagram

open Store

def Reply.overflows (reply : Reply) : Bool :=
  match reply.outcome with
  | .ok _ => false
  | .error failure => failure.overflows

-- No request has come upon a count that was full.
def Journal.Uncrowded (journal : Journal) : Prop := ∀ entry ∈ journal, entry.reply.overflows = false

instance (journal : Journal) : Decidable journal.Uncrowded :=
  inferInstanceAs (Decidable (∀ entry ∈ journal, entry.reply.overflows = false))

theorem uncrowded_failure (reply : Reply) (room : reply.overflows = false) (failure : Failure)
    (failed : reply.outcome = .error failure) : failure.overflows = false := by
  rwa [Reply.overflows, failed] at room

namespace Store

theorem count_tally (store : Store) (sound : store.Sound) (f : Ref) (large : 2 ≤ f) (inside : f < store.arena.size) :
    store.count f = .ok (store.tally f) := by
  have small : f < store.counts.size := by
    rw [sound.counted]
    exact inside
  have counted : store.counts[f]? = some store.counts[f] := Array.getElem?_eq_getElem small
  simp [count, tally, large, counted]

theorem collected_empty (old new : Store) (freed : Nat) (sound : new.Sound) (collected : old.Collected new freed)
    (unheld : ∀ f, 2 ≤ f → old.tally f = 0) : new.numNodes = 0 := by
  have gone : ∀ f node, ¬ new.Tests f node := by
    intro f node tests
    obtain ⟨_, root, ⟨⟨other, used⟩, count, counted, held⟩, _⟩ := (collected.live f node).mp tests
    have none := unheld root used.1
    rw [tally, counted] at none
    exact absurd held (by simp only [Option.getD_some] at none; omega)
  have listed : List.range' 2 (new.arena.size - 2) ⊆ new.free := by
    intro f member
    obtain ⟨large, small⟩ := List.mem_range'_1.mp member
    have inside : f < new.arena.size := by omega
    refine (sound.freeListed f).mpr ⟨large, ?_⟩
    cases slot : new.arena[f] with
    | free => rw [Array.getElem?_eq_getElem inside, slot]
    | live node => exact absurd ⟨large, by rw [Array.getElem?_eq_getElem inside, slot]⟩ (gone f node)
  have fits := ((List.nodup_range' 1).subperm listed).length_le
  rw [List.length_range'] at fits
  rw [numNodes]
  omega

end Store

theorem Block.uses_count (blocks : List Block) (f : Ref) (large : 2 ≤ f) :
    uses blocks f = blocks.countP (·.varset == f) := by
  induction blocks with
  | nil => rfl
  | cons block rest ih =>
      rw [uses, ih, List.countP_cons, Nat.add_comm]
      by_cases same : block.varset = f
      · simp [Ref.once, same, large]
      · simp [Ref.once, same, Ne.symm same]

namespace Workspace

def blocksIn (ws : Workspace) (id : Nat) : List Block :=
  (ws.tables.toList.filter fun table => table.owner = some id).flatMap (·.blocks.toList)

theorem uses_count (ws : Workspace) (id : Nat) (f : Ref) (large : 2 ≤ f) :
    ws.uses id f = (ws.blocksIn id).countP (·.varset == f) := by
  rw [uses, blocksIn]
  generalize ws.tables.toList = tables
  induction tables with
  | nil => rfl
  | cons table rest ih =>
      have step : BlockTable.total ((table :: rest).map (·.uses id f)) =
          table.uses id f + BlockTable.total (rest.map (·.uses id f)) := rfl
      rw [step, ih]
      by_cases owned : table.owner = some id
      · simp [owned, table.uses_owned id f owned, Block.uses_count _ f large]
      · simp [owned, table.uses_foreign id f owned]

def Balanced (ws : Workspace) (journal : Journal) : Prop :=
  ∀ (m : Nat) (store : Store) (f : Ref), ws.stores[m]? = some store → 2 ≤ f →
    store.tally f = journal.holds m f + ws.uses store.id f

end Workspace

theorem balanced_change (book : Book) (ws : Workspace) (journal : Journal) (entry : Entry) (bound : ws.Bound)
    (covered : ws.Covered journal) (balanced : ws.Balanced journal) (allowed : journal.Allows entry.command)
    (failed : ∀ failure, entry.reply.outcome = .error failure → ws.Even entry.reply.workspace)
    (change : Change book ws entry) : entry.reply.workspace.Balanced (entry :: journal) := by
  intro m next f later large
  have pays := change_pays book ws journal entry bound covered allowed change m next f later large
  change next.tally f = entry.reply.workspace.dues (entry :: journal) m next f
  rcases pays with ⟨unheld, none⟩ | ⟨store, found, gained | ⟨_, same, failure, outcome⟩⟩
  · exact unheld.trans none.symm
  · have start : store.tally f = ws.dues journal m store f := balanced m store f found large
    lia
  · obtain ⟨last, there, even⟩ := failed failure outcome m store found
    obtain rfl := Option.some.inj (later.symm.trans there)
    rw [even f, same]
    exact balanced m store f found large

theorem fair_balanced (ws : Workspace) (journal : Journal) (fair : Fair ws journal) (uncrowded : journal.Uncrowded) :
    ws.Balanced journal := by
  induction fair with
  | start => exact nofun
  | step ws journal command fair allowed ih =>
      obtain ⟨room, earlier⟩ := List.forall_mem_cons.mp uncrowded
      obtain ⟨book, _, change⟩ := fair_change ws journal fair command
      have accounted := fair_accounted ws journal fair
      refine balanced_change book ws journal _ accounted.bound accounted.covered (ih earlier) allowed ?_ change
      intro failure failed
      exact Workspace.failed_even ws journal fair command failure failed (uncrowded_failure _ room failure failed)

def Call.Borrows : Call → Prop
  | .change (.encode _ _ _) => True
  | .change (.pairBlocks _ _ _ _ _) => True
  | .change (.pairAll _ _ _ _) => True
  | .change _ => False
  | .look _ => True

namespace Workspace

theorem encode_even (ws : Workspace) (journal : Journal) (fair : Fair ws journal) (m t : Nat) (encoding : Encoding)
    (room : (ws.perform (.encode m t encoding)).overflows = false) :
    ws.Even (ws.perform (.encode m t encoding)).workspace := by
  cases outcome : (ws.perform (.encode m t encoding)).outcome with
  | error failure => exact failed_even ws journal fair _ failure outcome (uncrowded_failure _ room failure outcome)
  | ok answer =>
      obtain ⟨book, _, trusted⟩ := reachable_trusted ws (fair_reachable ws journal fair)
      obtain ⟨table, named, reached⟩ := found_done ws (ws.table t) _ answer outcome
      simp only [perform, encode] at outcome ⊢
      rw [reached] at outcome ⊢
      obtain ⟨store, next, r, found, ran, answered⟩ := on_store_done ws m _ _ answer outcome
      have charges := Action.charges_encoding book table encoding store (trusted m store found)
      rw [answered]
      exact even_set ws m store next found (Action.ends_ok _ store next r _ _ charges ran).2

theorem collect_tables (ws : Workspace) (m : Nat) : (ws.perform (.collect m)).workspace.tables = ws.tables := by
  rcases on_store_cases ws m (.perform .collect) fun sweep _ ws =>
      ⟨.ok (.amount sweep.freed), [.collecting, .collected sweep], ws⟩ with
    absent | ⟨_, _, ⟨_, _, _, answered⟩ | ⟨_, _, _, refused⟩⟩
  · exact congrArg (fun reply => reply.workspace.tables) absent
  · exact congrArg (fun reply => reply.workspace.tables) answered
  · exact congrArg (fun reply => reply.workspace.tables) refused

end Workspace

structure Ledger (ws : Workspace) (journal : Journal) : Prop where
  counts : ∀ (m : Nat) (store : Store) (f : Ref), ws.stores[m]? = some store → 2 ≤ f → f < store.arena.size →
    store.count f = .ok (journal.holds m f + (ws.blocksIn store.id).countP (·.varset == f))
  borrowed : ∀ call : Call, call.Borrows →
    (∀ failure, (ws.turn call).said = .changed (.error failure) → failure.overflows = false) →
    ws.Even (ws.turn call).workspace
  teardown : ∀ (m t : Nat) (fault : Fault), (ws.perform (.teardown m t)).outcome ≠ .error (.broken fault)
  cleared : ∀ (m t : Nat) (store : Store) (table : BlockTable), ws.stores[m]? = some store →
    ws.tables[t]? = some table → table.owner = none ∨ table.owner = some store.id →
    (ws.perform (.teardown m t)).outcome = .ok .done ∧
      (ws.perform (.teardown m t)).workspace.tables[t]? = some .empty ∧
      ∃ next, (ws.perform (.teardown m t)).workspace.stores[m]? = some next ∧ ∀ f, 2 ≤ f →
        next.tally f + table.blocks.toList.countP (·.varset == f) = store.tally f
  sets : ∀ (k m t i : Nat) (store : Store) (table : BlockTable) (block : Block), ws.stores[m]? = some store →
    ws.tables[t]? = some table → table.owner = some store.id → table.blocks[i]? = some block →
    ws.Means m block.varset block.vars.all ∧ (ws.perform (.collect k)).workspace.tables = ws.tables ∧
      (ws.perform (.collect k)).workspace.Means m block.varset block.vars.all
  empty : ∀ (m : Nat) (store : Store), ws.stores[m]? = some store → ws.blocksIn store.id = [] →
    (∀ f, 2 ≤ f → journal.holds m f = 0) → ∃ next, (ws.perform (.collect m)).workspace.stores[m]? = some next ∧
      next.numNodes = 0

theorem fair_ledger (ws : Workspace) (journal : Journal) (fair : Fair ws journal) (uncrowded : journal.Uncrowded) :
    Ledger ws journal := by
  have reachable := fair_reachable ws journal fair
  have balanced := fair_balanced ws journal fair uncrowded
  have accounted := fair_accounted ws journal fair
  constructor
  case counts =>
    intro m store f found large inside
    have sound := Workspace.reachable_sound ws reachable m store found
    rw [store.count_tally sound f large inside, balanced m store f found large, ws.uses_count store.id f large]
  case borrowed =>
    intro call borrows room
    cases call with
    | look query => exact ws.even_same _ rfl
    | change command =>
        cases command with
        | encode m t encoding =>
            refine ws.encode_even journal fair m t encoding ?_
            unfold Reply.overflows
            split
            · rfl
            · next failure failed => exact room failure (congrArg Said.changed failed)
        | pairBlocks m t p source target => exact ws.even_same _ (ws.pair_as_stores m t p _)
        | pairAll m t p pairs => exact ws.even_same _ (ws.pair_as_stores m t p _)
        | _ => exact nomatch borrows
  case teardown =>
    intro m t fault broken
    exact (ws.failed_teardown journal fair m t _ broken).1 fault rfl
  case cleared =>
    intro m t store table found tabled owned
    obtain ⟨next, done, tally⟩ := ws.owned_teardown journal fair m t store table found tabled owned
    have reply : ws.perform (.teardown m t) = _ := done
    rw [reply]
    refine ⟨rfl, (ws.setStore m next).set_table_found t table .empty tabled, next,
      ws.set_store_found m store next found, fun f large => ?_⟩
    rw [← Block.uses_count _ f large, tally]
  case sets =>
    intro k m t i store table block found tabled owned listed
    have fits := accounted.fitted m t store table found tabled owned i block listed
    have means : ws.Means m block.varset block.vars.all := ⟨store, found, fits.live, fits.set⟩
    obtain ⟨book, trusted, change⟩ := fair_change ws journal fair (.collect k)
    refine ⟨means, ws.collect_tables k, change_means book ws trusted _ m [block.varset] ?_ change block.varset
      List.mem_cons_self _ means⟩
    rintro _ other there f member
    obtain rfl := Option.some.inj (found.symm.trans there)
    obtain rfl := List.mem_singleton.mp member
    exact block_kept ws journal accounted.covered m t store table found tabled owned i block listed fits.live
  case empty =>
    intro m store found none released
    have sound := Workspace.reachable_sound ws reachable m store found
    obtain ⟨sweep, next, done, nextSound, collected⟩ := Action.collect_collected store sound
    rw [ws.collect_reply m store next sweep found done]
    refine ⟨next, ws.set_store_found m store next found, ?_⟩
    refine collected_empty store next sweep.freed nextSound collected fun f large => ?_
    rw [balanced m store f found large, released f large, ws.uses_count store.id f large, none]
    rfl

-- Two blocks share a set, and of two holds that the client has had on it one
-- is left. With this one given up and the table torn down, nothing is left of
-- the store.
theorem shared_set_ledger :
    ∃ (ws last : Workspace) (journal after : Journal), Fair ws journal ∧ journal.Uncrowded ∧ Ledger ws journal ∧
      ws = Workspace.empty.run [.newStore {}, .newTable, .extend 0 0 [3], .overlap 0 0 0 0,
        .encode 0 0 (.varset [0, 1]), .hold 0 3, .encode 0 0 (.legal 1), .hold 0 3, .release 0 3] ∧
      journal.holds 0 3 = 1 ∧ ws.tables[0]?.map (·.blocks.toList.map (·.varset)) = some [3, 3] ∧
      ws.stores[0]?.map (·.count 3) = some (.ok 3) ∧
      last = ws.run [.release 0 3, .teardown 0 0, .collect 0] ∧ Fair last after ∧ after.Uncrowded ∧
      Ledger last after ∧ last.tables[0]?.map (·.blocks.size) = some 0 ∧ last.stores[0]?.map (·.numNodes) = some 0 := by
  have before := fair_record .empty [] .start [.newStore {}, .newTable, .extend 0 0 [3], .overlap 0 0 0 0,
    .encode 0 0 (.varset [0, 1]), .hold 0 3, .encode 0 0 (.legal 1), .hold 0 3] (by simp [Journal.Allows])
  have fair := Fair.step _ _ (.release 0 3) before (.inr (by decide +kernel))
  have released := Fair.step _ _ (.release 0 3) fair (.inr (by decide +kernel))
  have ended := fair_record _ _ released [.teardown 0 0, .collect 0] (by simp [Journal.Allows])
  refine ⟨_, _, _, _, fair, ?_, fair_ledger _ _ fair ?_, rfl, ?_, ?_, ?_, ?run, ended, ?_,
    fair_ledger _ _ ended ?_, ?_, ?_⟩
  case run => simp only [Workspace.run, List.foldl_cons, List.foldl_nil]
  all_goals decide +kernel

end DomainDiagram
