import DomainDiagram.Proofs.Asking
import DomainDiagram.Proofs.Histories

set_option autoImplicit false

namespace DomainDiagram

def Event.bare : Event → Event
  | .created id config => .created id { config with cacheBits := 0 }
  | event => event

-- Two commands that differ in the sizes of tables of results at most, none of
-- them too big.
inductive Command.Alike : Command → Command → Prop where
  | same (command : Command) : Alike command command
  | sized (a b : Config) (capacity : a.capacity = b.capacity) (maxVars : a.maxVars = b.maxVars)
      (left : a.cacheBits ≤ Memo.maxBits) (right : b.cacheBits ≤ Memo.maxBits) :
      Alike (.newStore a) (.newStore b)

inductive Call.Alike : Call → Call → Prop where
  | change (a b : Command) (alike : a.Alike b) : Alike (.change a) (.change b)
  | look (query : Query) : Alike (.look query) (.look query)

theorem Call.alike_refl (call : Call) : call.Alike call := by
  cases call with
  | change command => exact .change command command (.same command)
  | look query => exact .look query

namespace Workspace

def bare (ws : Workspace) : Workspace := { ws with stores := ws.stores.map Store.bare }

theorem bare_stores (left right : Workspace) (same : left.bare = right.bare) (m : Nat) :
    (left.stores[m]? = none ∧ right.stores[m]? = none) ∨
      ∃ a b, left.stores[m]? = some a ∧ right.stores[m]? = some b ∧ a.bare = b.bare := by
  have stores : left.stores.map Store.bare = right.stores.map Store.bare := congrArg Workspace.stores same
  have found : (left.stores[m]?).map Store.bare = (right.stores[m]?).map Store.bare := by
    rw [← Array.getElem?_map, ← Array.getElem?_map, stores]
  cases leftFound : left.stores[m]? with
  | none =>
      rw [leftFound] at found
      exact .inl ⟨rfl, Option.map_eq_none_iff.mp found.symm⟩
  | some a =>
      rw [leftFound] at found
      obtain ⟨b, rightFound, alike⟩ := Option.map_eq_some_iff.mp found.symm
      exact .inr ⟨a, b, rfl, rightFound, alike.symm⟩

theorem bare_tables (left right : Workspace) (same : left.bare = right.bare) :
    left.tables = right.tables := by
  have tables : left.bare.tables = right.bare.tables := by rw [same]
  exact tables

theorem bare_renamings (left right : Workspace) (same : left.bare = right.bare) :
    left.renamings = right.renamings ∧ left.nextRenaming = right.nextRenaming := by
  have renamings : left.bare.renamings = right.bare.renamings := by rw [same]
  have ids : left.bare.nextRenaming = right.bare.nextRenaming := by rw [same]
  exact ⟨renamings, ids⟩

theorem bare_next_store (left right : Workspace) (same : left.bare = right.bare) :
    left.nextStore = right.nextStore ∧ left.stores.size = right.stores.size := by
  have ids : left.bare.nextStore = right.bare.nextStore := by rw [same]
  have sizes : left.bare.stores.size = right.bare.stores.size := by rw [same]
  exact ⟨ids, by simpa only [bare, Array.size_map] using sizes⟩

theorem bare_set_store (ws : Workspace) (m : Nat) (store : Store) :
    (ws.setStore m store).bare = ws.bare.setStore m store.bare := by
  simp only [setStore, bare, Array.map_setIfInBounds]

theorem bare_table (left right : Workspace) (same : left.bare = right.bare) (t : Nat) :
    left.table t = right.table t := by
  rw [table, table, bare_tables left right same]

theorem bare_names (left right : Workspace) (same : left.bare = right.bare) (p : Nat) :
    left.names p = right.names p := by
  rw [names, names, (bare_renamings left right same).1]

end Workspace

def Reply.bare (reply : Reply) : Reply :=
  ⟨reply.outcome, reply.events.map Event.bare, reply.workspace.bare⟩

def Turn.bare (turn : Turn) : Turn := ⟨turn.said, turn.events.map Event.bare, turn.workspace.bare⟩

namespace Workspace

theorem reply_bare (left right : Workspace) (same : left.bare = right.bare)
    (outcome : Except Failure Answer) (events : List Event) :
    Reply.bare ⟨outcome, events, left⟩ = Reply.bare ⟨outcome, events, right⟩ := by
  simp only [Reply.bare, same]

theorem refuse_bare (left right : Workspace) (same : left.bare = right.bare) (failure : Failure) :
    (left.refuse failure).bare = (right.refuse failure).bare := reply_bare left right same _ _

theorem found_bare {α : Type} (left right : Workspace) (same : left.bare = right.bare)
    (leftNamed rightNamed : Except Failure α) (leftNext rightNext : α → Reply)
    (named : leftNamed = rightNamed)
    (next : ∀ a, leftNamed = .ok a → (leftNext a).bare = (rightNext a).bare) :
    (left.found leftNamed leftNext).bare = (right.found rightNamed rightNext).bare := by
  subst named
  unfold found
  cases outcome : leftNamed with
  | ok a => exact next a outcome
  | error failure => exact refuse_bare left right same failure

theorem on_store_bare {α : Type} (book : Book) (left right : Workspace) (same : left.bare = right.bare)
    (leftTrusted : left.Trusted book) (rightTrusted : right.Trusted book) (m : Nat) (request : Request α)
    (answer : α → Store → Workspace → Reply)
    (requests : ∀ a b : Store, a.bare = b.bare → a.Coherent book → b.Coherent book →
      Action.bare (request a) = Action.bare (request b))
    (answers : ∀ result (a b : Store) (x y : Workspace), a.bare = b.bare → x.bare = y.bare →
      (answer result a x).bare = (answer result b y).bare) :
    (left.onStore m request answer).bare = (right.onStore m request answer).bare := by
  rw [on_store_run, on_store_run]
  rcases bare_stores left right same m with ⟨leftNone, rightNone⟩ | ⟨a, b, leftFound, rightFound, alike⟩
  · rw [leftNone, rightNone]
    exact refuse_bare left right same _
  · rw [leftFound, rightFound]
    have set : ∀ x y : Store, x.bare = y.bare → (left.setStore m x).bare = (right.setStore m y).bare := by
      intro x y further
      rw [bare_set_store, bare_set_store, same, further]
    have outcomes := requests a b alike (leftTrusted m a leftFound) (rightTrusted m b rightFound)
    rcases Action.bare_cases _ _ outcomes with ⟨result, x, y, leftDone, rightDone, further⟩ |
      ⟨failure, x, y, leftDone, rightDone, further⟩
    · simp only [leftDone, rightDone]
      exact answers result x y _ _ further (set x y further)
    · simp only [leftDone, rightDone]
      exact refuse_bare _ _ (set x y further) failure

theorem bare_ext (left right : Workspace)
    (stores : left.stores.map Store.bare = right.stores.map Store.bare) (tables : left.tables = right.tables)
    (renamings : left.renamings = right.renamings) (nextStore : left.nextStore = right.nextStore)
    (nextRenaming : left.nextRenaming = right.nextRenaming) : left.bare = right.bare := by
  simp only [bare, stores, tables, renamings, nextStore, nextRenaming]

theorem bare_store_map (left right : Workspace) (same : left.bare = right.bare) :
    left.stores.map Store.bare = right.stores.map Store.bare := by
  have stores : left.bare.stores = right.bare.stores := by rw [same]
  exact stores

theorem set_table_bare (left right : Workspace) (same : left.bare = right.bare) (t : Nat)
    (table : BlockTable) : (left.setTable t table).bare = (right.setTable t table).bare := by
  have tables := bare_tables left right same
  obtain ⟨renamings, nextRenaming⟩ := bare_renamings left right same
  refine bare_ext _ _ (bare_store_map left right same) ?_ renamings (bare_next_store left right same).1
    nextRenaming
  exact congrArg (·.setIfInBounds t table) tables

theorem set_names_bare (left right : Workspace) (same : left.bare = right.bare) (p : Nat)
    (names : Renaming) (next : Nat) :
    (left.setNames p names next).bare = (right.setNames p names next).bare := by
  obtain ⟨renamings, _⟩ := bare_renamings left right same
  refine bare_ext _ _ (bare_store_map left right same) (bare_tables left right same) ?_
    (bare_next_store left right same).1 rfl
  exact congrArg (·.setIfInBounds p names) renamings

theorem add_renaming_bare (left right : Workspace) (same : left.bare = right.bare) (names : Renaming)
    (next : Nat) : (left.addRenaming names next).bare = (right.addRenaming names next).bare := by
  obtain ⟨renamings, _⟩ := bare_renamings left right same
  have later : Workspace.bare { left with renamings := left.renamings.push names, nextRenaming := next } =
      Workspace.bare { right with renamings := right.renamings.push names, nextRenaming := next } :=
    bare_ext _ _ (bare_store_map left right same) (bare_tables left right same)
      (congrArg (·.push names) renamings) (bare_next_store left right same).1 rfl
  have size : left.renamings.size = right.renamings.size := by rw [renamings]
  unfold addRenaming
  rw [size]
  exact reply_bare _ _ later _ _

theorem new_store_bare (left right : Workspace) (same : left.bare = right.bare) (a b : Config)
    (capacity : a.capacity = b.capacity) (maxVars : a.maxVars = b.maxVars)
    (bits : a.cacheBits = b.cacheBits ∨ (a.cacheBits ≤ Memo.maxBits ∧ b.cacheBits ≤ Memo.maxBits)) :
    (left.newStore a).bare = (right.newStore b).bare := by
  obtain ⟨nextStore, size⟩ := bare_next_store left right same
  obtain ⟨renamings, nextRenaming⟩ := bare_renamings left right same
  have fits : a.capacityFits = b.capacityFits := by rw [Config.capacityFits, Config.capacityFits, capacity]
  have config : ({ a with cacheBits := 0 } : Config) = { b with cacheBits := 0 } := by
    rw [capacity, maxVars]
  have created : ∀ id, Event.bare (.created id a) = Event.bare (.created id b) := by
    intro id
    simp only [Event.bare, config]
  have answered : ∀ (outcome : Except Failure Answer) (x y : Workspace), x.bare = y.bare →
      Reply.bare ⟨outcome, [.created right.nextStore a], x⟩ =
        Reply.bare ⟨outcome, [.created right.nextStore b], y⟩ := by
    intro outcome x y alike
    simp only [Reply.bare, List.map_cons, created, alike]
  rw [new_store_run, new_store_run, fits, nextStore, size]
  by_cases capacious : b.capacityFits = true
  · rw [if_pos capacious, if_pos capacious, create_run, create_run]
    by_cases small : a.cacheBits ≤ Memo.maxBits
    · have otherSmall : b.cacheBits ≤ Memo.maxBits := by
        rcases bits with equal | both
        · exact equal ▸ small
        · exact both.2
      rw [if_pos small, if_pos otherSmall]
      refine answered _ _ _ (bare_ext _ _ ?_ (bare_tables left right same) renamings rfl nextRenaming)
      simp only [Array.map_push, bare_store_map left right same, Store.bare, config]
    · have equal : a.cacheBits = b.cacheBits := bits.elim id fun both => absurd both.1 small
      rw [if_neg small, if_neg (equal ▸ small), equal]
      refine answered _ _ _ (bare_ext _ _ ?_ (bare_tables left right same) renamings rfl nextRenaming)
      exact bare_store_map left right same
  · rw [if_neg capacious, if_neg capacious]
    exact refuse_bare left right same _

theorem regular_bare {α : Type} (book : Book) (left right : Workspace) (same : left.bare = right.bare)
    (leftTrusted : left.Trusted book) (rightTrusted : right.Trusted book) (m : Nat) (request : Request α)
    (answer : α → Store → Workspace → Reply) (regular : Action.Regular book request)
    (answers : ∀ result (a b : Store) (x y : Workspace), a.bare = b.bare → x.bare = y.bare →
      (answer result a x).bare = (answer result b y).bare) :
    (left.onStore m request answer).bare = (right.onStore m request answer).bare :=
  on_store_bare book left right same leftTrusted rightTrusted m request answer regular.same answers

theorem construct_bare (book : Book) (left right : Workspace) (same : left.bare = right.bare)
    (leftTrusted : left.Trusted book) (rightTrusted : right.Trusted book) (m : Nat) (act : Action Ref)
    (regular : Action.Regular book act) : (left.construct m act).bare = (right.construct m act).bare :=
  regular_bare book left right same leftTrusted rightTrusted m _ _ (Action.regular_perform book act regular)
    fun _ _ _ x y _ alike => reply_bare x y alike _ _

theorem teardown_bare (book : Book) (left right : Workspace) (same : left.bare = right.bare)
    (leftTrusted : left.Trusted book) (rightTrusted : right.Trusted book) (m t : Nat) :
    (left.teardown m t).bare = (right.teardown m t).bare := by
  rw [teardown_run, teardown_run]
  refine found_bare left right same _ _ _ _ (bare_table left right same t) fun table _ => ?_
  rcases bare_stores left right same m with ⟨leftNone, rightNone⟩ | ⟨a, b, leftFound, rightFound, alike⟩
  · rw [leftNone, rightNone]
    exact refuse_bare left right same _
  · rw [leftFound, rightFound]
    obtain ⟨outcome, after, stores⟩ := table.teardown_same book a b alike (leftTrusted m a leftFound)
      (rightTrusted m b rightFound)
    have set : ((left.setStore m (table.teardown a).2.2).setTable t (table.teardown a).2.1).bare =
        ((right.setStore m (table.teardown b).2.2).setTable t (table.teardown b).2.1).bare := by
      rw [after]
      refine set_table_bare _ _ ?_ t _
      rw [bare_set_store, bare_set_store, same, stores]
    simp only [outcome]
    split
    · exact reply_bare _ _ set _ _
    · exact reply_bare _ _ set _ _
    · exact refuse_bare _ _ set _

theorem pair_as_bare (left right : Workspace) (same : left.bare = right.bare) (m t p : Nat)
    (plan : BlockTable → Store → List BlockPair × Except Refusal Unit)
    (blind : ∀ table (store : Store), plan table store.bare = plan table store) :
    (left.pairAs m t p plan).bare = (right.pairAs m t p plan).bare := by
  rw [pair_as_run, pair_as_run]
  rcases bare_stores left right same m with ⟨leftNone, rightNone⟩ | ⟨a, b, leftFound, rightFound, alike⟩
  · simp only [store, leftNone, rightNone, found]
    exact refuse_bare left right same _
  · simp only [store, leftFound, rightFound, found]
    refine found_bare left right same _ _ _ _ (bare_table left right same t) fun table _ => ?_
    refine found_bare left right same _ _ _ _ (bare_names left right same p) fun names _ => ?_
    rw [(bare_renamings left right same).2, Store.bare_blind (plan table) (blind table) a b alike]
    exact reply_bare _ _ (set_names_bare left right same p _ _) _ _

theorem pair_bare (left right : Workspace) (same : left.bare = right.bare) (m p : Nat) (v w : Var) :
    (left.pair m p v w).bare = (right.pair m p v w).bare := by
  unfold pair
  rcases bare_stores left right same m with ⟨leftNone, rightNone⟩ | ⟨a, b, leftFound, rightFound, alike⟩
  · simp only [store, leftNone, rightNone, found]
    exact refuse_bare left right same _
  · have checks : a.checkPair v w = b.checkPair v w :=
      Store.bare_blind (·.checkPair v w) (fun _ => rfl) a b alike
    have ids := (bare_renamings left right same).2
    simp only [store, leftFound, rightFound, found, bare_names left right same p, checks, ids]
    cases right.names p with
    | error failure => exact refuse_bare left right same failure
    | ok names =>
        cases b.checkPair v w with
        | error refusal => exact refuse_bare left right same _
        | ok _ => exact reply_bare _ _ (set_names_bare left right same p _ _) _ _

theorem perform_bare (book : Book) (left right : Workspace) (same : left.bare = right.bare)
    (booked : left.Booked book) (leftTrusted : left.Trusted book) (rightTrusted : right.Trusted book)
    (a b : Command) (alike : a.Alike b) : (left.perform a).bare = (right.perform b).bare := by
  cases alike with
  | sized a b capacity maxVars aBits bBits =>
      exact new_store_bare left right same a b capacity maxVars (.inr ⟨aBits, bBits⟩)
  | same =>
      cases a with
      | newStore config => exact new_store_bare left right same config config rfl rfl (.inl rfl)
      | newVars m n =>
          refine regular_bare book left right same leftTrusted rightTrusted m _ _
            (Action.regular_new_vars book n) fun first s t x y stores later => ?_
          have vars : s.numVars = t.numVars := Store.bare_blind Store.numVars (fun _ => rfl) s t stores
          rw [vars]
          exact reply_bare x y later _ _
      | construct m construction =>
          exact construct_bare book left right same leftTrusted rightTrusted m _
            (Action.regular_construction book construction)
      | rename m p f =>
          refine found_bare left right same _ _ _ _ (bare_names left right same p) fun names named => ?_
          have current := booked.current p names ((names_found left p names).mp named)
          exact construct_bare book left right same leftTrusted rightTrusted m _
            (Action.regular_rename book names current f)
      | hold m f =>
          exact construct_bare book left right same leftTrusted rightTrusted m _ (Action.regular_hold book f)
      | release m f =>
          exact regular_bare book left right same leftTrusted rightTrusted m _ _
            (Action.regular_perform book _ (Action.regular_release book f))
            fun _ _ _ x y _ later => reply_bare x y later _ _
      | collect m =>
          refine on_store_bare book left right same leftTrusted rightTrusted m _ _ (fun s t stores _ _ => ?_)
            fun _ _ _ x y _ later => reply_bare x y later _ _
          exact Action.same_perform Action.collect s t (Action.collect_same s t stores)
      | newTable =>
          obtain ⟨renamings, nextRenaming⟩ := bare_renamings left right same
          have tables := bare_tables left right same
          simp only [perform, newTable, tables]
          have later : Workspace.bare { left with tables := right.tables.push .empty } =
              Workspace.bare { right with tables := right.tables.push .empty } :=
            bare_ext _ _ (bare_store_map left right same) rfl renamings (bare_next_store left right same).1
              nextRenaming
          exact reply_bare _ _ later _ _
      | extend m t sizes =>
          refine found_bare left right same _ _ _ _ (bare_table left right same t) fun table _ => ?_
          refine regular_bare book left right same leftTrusted rightTrusted m _ _
            (Action.regular_extend book table sizes) fun extended u v x y stores later => ?_
          have vars : u.numVars = v.numVars := Store.bare_blind Store.numVars (fun _ => rfl) u v stores
          have events : Event.ofExtension table extended u = Event.ofExtension table extended v := by
            simp only [Event.ofExtension, vars]
          rw [events]
          exact reply_bare _ _ (set_table_bare x y later t extended) _ _
      | overlap m t l r =>
          refine found_bare left right same _ _ _ _ (bare_table left right same t) fun table _ => ?_
          exact regular_bare book left right same leftTrusted rightTrusted m _ _
            (Action.regular_overlap book table l r)
            fun overlapped _ _ x y _ later => reply_bare _ _ (set_table_bare x y later t overlapped) _ _
      | teardown m t => exact teardown_bare book left right same leftTrusted rightTrusted m t
      | encode m t encoding =>
          refine found_bare left right same _ _ _ _ (bare_table left right same t) fun table _ => ?_
          exact regular_bare book left right same leftTrusted rightTrusted m _ _
            (Action.regular_encoding book table encoding) fun _ _ _ x y _ later => reply_bare x y later _ _
      | newRenaming =>
          have ids := (bare_renamings left right same).2
          simp only [perform, newRenaming, ids]
          exact add_renaming_bare left right same _ _
      | copyRenaming p =>
          refine found_bare left right same _ _ _ _ (bare_names left right same p) fun names _ => ?_
          rw [(bare_renamings left right same).2]
          exact add_renaming_bare left right same names _
      | clearRenaming p =>
          refine found_bare left right same _ _ _ _ (bare_names left right same p) fun names _ => ?_
          rw [(bare_renamings left right same).2]
          exact reply_bare _ _ (set_names_bare left right same p _ _) _ _
      | pair m p v w => exact pair_bare left right same m p v w
      | pairBlocks m t p source target => exact pair_as_bare left right same m t p _ fun _ _ => rfl
      | pairAll m t p pairs => exact pair_as_bare left right same m t p _ fun _ _ => rfl

theorem booked_bare (left right : Workspace) (same : left.bare = right.bare) (book : Book)
    (booked : left.Booked book) : right.Booked book := by
  obtain ⟨renamings, ids⟩ := bare_renamings left right same
  exact ⟨fun p names found => booked.current p names (renamings ▸ found),
    fun id new => booked.fresh id (ids ▸ new)⟩

theorem printing_bare {σ : Type} (left right : Workspace) (same : left.bare = right.bare) (m t : Nat)
    (write : σ → String → Bool × σ) (sink : σ) (f : Ref) :
    left.printing m t write sink f = right.printing m t write sink f := by
  unfold printing
  rw [bare_table left right same t]
  rcases bare_stores left right same m with ⟨leftNone, rightNone⟩ | ⟨a, b, leftFound, rightFound, alike⟩
  · simp only [store, leftNone, rightNone]
  · have prints : ∀ table : BlockTable, table.print a write f = table.print b write f := fun table =>
      Store.bare_blind (fun s => table.print s write f) (fun s => table.print_bare s write f) a b alike
    simp only [store, leftFound, rightFound]
    cases right.table t with
    | error failure => rfl
    | ok table => simp only [prints]

theorem look_bare (left right : Workspace) (same : left.bare = right.bare) (query : Query) :
    left.look query = right.look query := by
  cases query with
  | names p => simp only [look, bare_names left right same p]
  | table t => simp only [look, bare_table left right same t]
  | print m t f => simp only [look, printing_bare left right same]
  | printInto m t f sink => simp only [look, printing_bare left right same]
  | ask m question =>
      rcases bare_stores left right same m with ⟨leftNone, rightNone⟩ | ⟨a, b, leftFound, rightFound, alike⟩
      · simp only [look, store, leftNone, rightNone]
      · have answers := Store.bare_blind (·.answer question) (fun s => s.answer_bare question) a b alike
        simp only [look, store, leftFound, rightFound, factOf, answers]
  | blocksOf m t f =>
      simp only [look, bare_table left right same t]
      rcases bare_stores left right same m with ⟨leftNone, rightNone⟩ | ⟨a, b, leftFound, rightFound, alike⟩
      · simp only [store, leftNone, rightNone]
      · have blocks : ∀ table : BlockTable, table.blocksOf f a = table.blocksOf f b := fun table =>
          Store.bare_blind (table.blocksOf f) (fun s => table.blocks_of_bare f s) a b alike
        simp only [store, leftFound, rightFound, factOf, blocks]

theorem turn_bare (book : Book) (left right : Workspace) (same : left.bare = right.bare)
    (booked : left.Booked book) (leftTrusted : left.Trusted book) (rightTrusted : right.Trusted book)
    (a b : Call) (alike : a.Alike b) : (left.turn a).bare = (right.turn b).bare := by
  cases alike with
  | change a b commands =>
      have replies := perform_bare book left right same booked leftTrusted rightTrusted a b commands
      obtain ⟨outcome, events, workspace⟩ := Reply.mk.inj replies
      simp only [turn, Turn.bare, outcome, events, workspace]
  | look query =>
      have looks := look_bare left right same query
      simp only [turn, Turn.bare, looks, same]

structure Twins (book : Book) (left right : Workspace) : Prop where
  same : left.bare = right.bare
  booked : left.Booked book
  leftTrusted : left.Trusted book
  rightTrusted : right.Trusted book

theorem turn_trusted (book : Book) (ws : Workspace) (booked : ws.Booked book) (trusted : ws.Trusted book)
    (call : Call) : (ws.turn call).workspace.Trusted book := by
  cases call with
  | change command => exact (perform_keeps book ws booked trusted command).2
  | look query => exact trusted

theorem turn_books (book : Book) (ws : Workspace) (booked : ws.Booked book) (call : Call) :
    ∃ next : Book, (∀ id image, book id = some image → next id = some image) ∧
      (ws.turn call).workspace.Booked next := by
  cases call with
  | change command => exact perform_books book ws booked command
  | look query => exact ⟨book, fun _ _ entered => entered, booked⟩

theorem turn_twins (book : Book) (left right : Workspace) (twins : Twins book left right) (a b : Call)
    (alike : a.Alike b) :
    ∃ next : Book, Twins next (left.turn a).workspace (right.turn b).workspace := by
  have turns := turn_bare book left right twins.same twins.booked twins.leftTrusted twins.rightTrusted a b alike
  have rightBooked := booked_bare left right twins.same book twins.booked
  have leftTrusted := turn_trusted book left twins.booked twins.leftTrusted a
  have rightTrusted := turn_trusted book right rightBooked twins.rightTrusted b
  obtain ⟨next, kept, booked⟩ := turn_books book left twins.booked a
  exact ⟨next, congrArg Turn.workspace turns, booked,
    fun m store found => Store.coherent_book store book next kept (leftTrusted m store found),
    fun m store found => Store.coherent_book store book next kept (rightTrusted m store found)⟩

theorem transcript_twins (book : Book) (left right : Workspace) (twins : Twins book left right)
    (lefts rights : List Call) (alike : List.Forall₂ Call.Alike lefts rights) :
    (left.transcript lefts).map Turn.bare = (right.transcript rights).map Turn.bare := by
  induction alike generalizing left right book with
  | nil => rfl
  | cons first _ ih =>
      have turns := turn_bare book left right twins.same twins.booked twins.leftTrusted twins.rightTrusted
        _ _ first
      obtain ⟨next, further⟩ := turn_twins book left right twins _ _ first
      simp only [transcript, List.map_cons, turns, ih next _ _ further]

theorem empty_twins : Twins (fun _ => none) empty empty :=
  ⟨rfl, empty_booked, empty_trusted, empty_trusted⟩

theorem transcript_transparent (lefts rights : List Call) (alike : List.Forall₂ Call.Alike lefts rights) :
    (empty.transcript lefts).map Turn.bare = (empty.transcript rights).map Turn.bare :=
  transcript_twins _ empty empty empty_twins lefts rights alike

-- The first result is asked for again: the one table still has it, and the
-- other has lost it to the results that came after.
theorem sizes_transparent :
    ∃ (session : Nat → List Command) (calls : Nat → List Call),
      (session = fun bits => [.newStore { cacheBits := bits }, .newVars 0 3, .construct 0 (.literal 1 true),
        .construct 0 (.literal 2 true), .construct 0 (.literal 3 true), .construct 0 (.combine .xor 2 3),
        .construct 0 (.combine .xor 3 4), .construct 0 (.combine .xor 2 3)]) ∧
      (calls = fun bits => (session bits).map .change ++ [.look (.ask 0 (.node 6))]) ∧
      (empty.run (session 0)).stores[0]?.map (fun store => (store.memo.hits, store.memo.size)) = some (0, 1) ∧
      (empty.run (session 31)).stores[0]?.map (fun store => (store.memo.hits, store.memo.size)) = some (1, 4) ∧
      List.Forall₂ Call.Alike (calls 0) (calls 31) ∧
      (empty.transcript (calls 0)).map Turn.bare = (empty.transcript (calls 31)).map Turn.bare := by
  have sized : Command.Alike (.newStore { cacheBits := 0 }) (.newStore { cacheBits := 31 }) :=
    .sized _ _ rfl rfl (by decide) (by decide)
  have rest : ∀ calls : List Call, List.Forall₂ Call.Alike calls calls := fun calls =>
    List.forall₂_same.mpr fun call _ => call.alike_refl
  refine ⟨_, _, rfl, rfl, by decide +kernel, by decide +kernel, ?alike, transcript_transparent _ _ ?alike⟩
  exact .cons (.change _ _ sized) (rest _)

end Workspace
end DomainDiagram
