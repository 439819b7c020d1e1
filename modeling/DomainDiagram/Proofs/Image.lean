import DomainDiagram.Proofs.Asking
import DomainDiagram.Proofs.Dialogue
import DomainDiagram.Proofs.Pairing

set_option autoImplicit false

namespace DomainDiagram

open Store

namespace Script

def value (m t index n : Nat) (_ : List Ref) (next : Ref → Script) : Script :=
  .call (.encode m t (.value index n)) next

def edge (m t current coming : Nat) (pair : Nat × Nat) (kept : List Ref) (next : Ref → Script) : Script :=
  .call (.encode m t (.value current pair.1)) fun a =>
    .pause (a :: kept) (.call (.encode m t (.value coming pair.2)) fun b =>
      .pause (b :: a :: kept) (.call (.construct m (.combine .and a b)) next))

def step (m : Nat) (set rel start : Ref) (next : Ref → Script) : Script :=
  .pause [start, rel] (.call (.construct m (.combine .and rel start)) fun steps =>
    .pause [steps, rel] (.call (.construct m (.quantify .any steps set)) next))

-- The renaming may have been entered at any time before.
def back (m p : Nat) (a b : Block) (rel ends : Ref) (next : Ref → Script) : Script :=
  .pause [ends, rel] (.given (·.Paired p b a) (.call (.rename m p ends) next))

-- A result beside the same put together value by value, and as many
-- assignments to the block as there are values.
def compare (m t index : Nat) (a : Block) (rel : Ref) (values : List Nat) (result : Ref) (next : Script) : Script :=
  gather m (value m t index) [result, rel] values 0 fun direct =>
    .pause [direct, result, rel] (.check (fun ws => result = direct ∧
      (ws.look (.ask m (.modelsOver result a.varset))).1 = .fact (.ok (.amount values.length))) next)

def walk (m t p current : Nat) (a b : Block) (rel : Ref) : List (List Nat) → Ref → Script
  | [], _ => .done
  | reached :: route, start =>
      step m a.varset rel start fun ends =>
        back m p a b rel ends fun result =>
          compare m t current a rel reached result (walk m t p current a b rel route result)

def image (m t p current coming : Nat) (a b : Block) (relation : List (Nat × Nat)) (states : List Nat)
    (route : List (List Nat)) : Script :=
  gather m (edge m t current coming) [] relation 0 fun rel =>
    gather m (value m t current) [rel] states 0 fun start => walk m t p current a b rel route start

end Script

-- From the states of each list the relation leads to just those of the next one.
def Stages (relation : List (Nat × Nat)) : List Nat → List (List Nat) → Prop
  | _, [] => True
  | states, reached :: route =>
      reached.Nodup ∧ (∀ j, j ∈ reached ↔ ∃ i ∈ states, (i, j) ∈ relation) ∧ Stages relation reached route

namespace Block

theorem code_agree (block : Block) (env other : Var → Bool) (agree : ∀ v ∈ block.vars, other v = env v) :
    block.code other = block.code env :=
  spelt_agree block.bits other env fun v member => agree v (List.mem_reverse.mp member)

theorem image_across (a b : Block) (once : a.vars.Nodup) (apart : a.vars.Disjoint b.vars) (wide : a.size ≤ 2 ^ a.width)
    (relation : List (Nat × Nat)) (states targets : List Nat) (small : ∀ i ∈ states, i < a.size)
    (reached : ∀ j, j ∈ targets ↔ ∃ i ∈ states, (i, j) ∈ relation) (env : Var → Bool) :
    Quantifier.any.across (Var.sorted a.vars) (fun inner =>
      (relation.any fun pair => decide (a.code inner = pair.1) && decide (b.code inner = pair.2)) &&
        states.any fun i => decide (a.code inner = i)) env = targets.any fun j => decide (b.code env = j) := by
  have still : ∀ other : Var → Bool, (∀ v, v ∉ a.vars → other v = env v) → b.code other = b.code env :=
    fun other agree => b.code_agree env other fun v member => agree v fun inside => apart inside member
  have bound : ∀ other : Var → Bool,
      (∀ v, v ∉ Var.sorted a.vars → other v = env v) ↔ ∀ v, v ∉ a.vars → other v = env v :=
    fun other => forall_congr' fun v => by rw [Var.sorted_mem]
  rw [Bool.eq_iff_iff, Quantifier.across_over]
  simp only [Quantifier.Over, bound, Bool.and_eq_true, List.any_eq_true, decide_eq_true_eq]
  constructor
  · rintro ⟨other, agree, ⟨⟨i, j⟩, step, rfl, rfl⟩, k, member, rfl⟩
    exact ⟨b.code other, (reached _).mpr ⟨a.code other, member, step⟩, (still other agree).symm⟩
  · rintro ⟨j, member, rfl⟩
    obtain ⟨i, state, step⟩ := (reached _).mp member
    have fits : i < 2 ^ a.bits.length := by
      rw [Block.bits, List.length_reverse]
      exact Nat.lt_of_lt_of_le (small i state) wide
    obtain ⟨other, agree, spells⟩ := spelt_onto a.bits (List.nodup_reverse.mpr once) env i fits
    have outside : ∀ v, v ∉ a.vars → other v = env v := fun v absent =>
      agree v fun inside => absent (List.mem_reverse.mp inside)
    exact ⟨other, outside, ⟨(i, b.code env), step, spells, still other outside⟩, i, state, spells⟩

theorem count_codes (block : Block) (store : Store) (sound : store.Sound) (fits : block.Fits store)
    (once : block.vars.Nodup) (targets : List Nat) (distinct : targets.Nodup)
    (small : ∀ j ∈ targets, j < 2 ^ block.width) (f : Ref) (live : store.Live f)
    (value : ∀ env, store.eval f env = targets.any fun j => decide (block.code env = j)) :
    store.modelsOver f block.varset = .ok targets.length := by
  have members := conjunction_members store sound block.varset fits.live block.vars fits.set
  have listed : ∀ env, store.eval f env = decide (block.code env ∈ targets) := by
    intro env
    rw [value, Bool.eq_iff_iff, List.any_eq_true, decide_eq_true_eq]
    simp only [decide_eq_true_eq, exists_eq_right']
  have reads : ∀ v, v ∉ Var.sorted block.vars → ∀ env value,
      store.eval f (Function.update env v value) = store.eval f env := by
    intro v outside env value
    rw [listed, listed, block.code_agree env (Function.update env v value) fun w member => Function.update_of_ne ?_ _ _]
    rintro rfl
    exact outside ((Var.sorted_mem block.vars w).mpr member)
  have perm : (Var.sorted block.vars).Perm block.bits := by
    refine (List.perm_ext_iff_of_nodup ?_ (List.nodup_reverse.mpr once)).mpr fun v => ?_
    · exact (Var.sorted_ascending block.vars).imp fun less => Nat.ne_of_lt less
    · exact (Var.sorted_mem block.vars v).trans List.mem_reverse.symm
  have room : ∀ j ∈ targets, j < 2 ^ block.bits.length := by
    intro j member
    rw [Block.bits, List.length_reverse]
    exact small j member
  rw [models_over_ok store sound f block.varset live fits.live _ members reads fun _ => false, ways_perm _ _ perm,
    ways_agree block.bits _ (fun other => decide (spelt block.bits other ∈ targets)) _ fun other _ => listed other,
    ways_spelt block.bits (List.nodup_reverse.mpr once) (fun n => decide (n ∈ targets)),
    count_listed targets distinct _ room]

end Block

namespace Workspace

theorem models_over_told (ws : Workspace) (m : Nat) (f set : Ref) (store : Store) (n : Nat)
    (found : ws.stores[m]? = some store) (counted : store.modelsOver f set = .ok n) :
    (ws.look (.ask m (.modelsOver f set))).1 = .fact (.ok (.amount n)) := by
  rw [ask_told ws m _ store found, Store.answer, counted, Store.told]

end Workspace

section Rules

variable {m t p id : Nat} {blocks : Array Block} {ws : Workspace} {journal : Journal}

theorem supplies_value {index value : Nat} {block : Block} (ready : Ready m t id blocks ws journal)
    (listed : blocks[index]? = some block) (small : value < block.size) :
    ws.Supplies m (.encode m t (.value index value)) fun env => decide (block.code env = value) := by
  obtain ⟨store, found, same⟩ := ready.rests.store
  obtain ⟨table, tabled, owned, still⟩ := ready.rests.table
  have engaged := ws.engaged_found (ready_reachable ready) m t store table found 3 (ready.room store found) tabled
    (same ▸ owned)
  exact ws.engaged_value m t table engaged (by decide) index value block (still index block listed) small

theorem ensures_value {index n : Nat} {block : Block} {kept : List Ref} {next : Ref → Script}
    (ready : Ready m t id blocks ws journal) (listed : blocks[index]? = some block) (small : n < block.size)
    (rest : ∀ r later after, Ready m t id blocks later after → ws.Carries m kept later →
      later.Means m r (fun env => decide (block.code env = n)) → Ensures m t (next r) later after) :
    Ensures m t (Script.value m t index n kept next) ws journal := by
  refine ensures_call ready trivial (supplies_value ready listed small) ?_
  exact fun r later after still carries means => rest r later after still (carries kept) means

theorem ensures_edge {current coming : Nat} {a b : Block} {pair : Nat × Nat} {kept : List Ref}
    {next : Ref → Script} (ready : Ready m t id blocks ws journal) (left : blocks[current]? = some a)
    (right : blocks[coming]? = some b) (small : pair.1 < a.size ∧ pair.2 < b.size)
    (rest : ∀ r later after, Ready m t id blocks later after → ws.Carries m kept later →
      later.Means m r (fun env => decide (a.code env = pair.1) && decide (b.code env = pair.2)) →
      Ensures m t (next r) later after) :
    Ensures m t (Script.edge m t current coming pair kept next) ws journal := by
  refine ensures_call ready trivial (supplies_value ready left small.1)
    fun f first firstAfter firstReady start fMeans => ?_
  refine ensures_pause firstReady fun second secondAfter secondReady waited => ?_
  have fSecond := waited f List.mem_cons_self _ fMeans
  refine ensures_call secondReady trivial (supplies_value secondReady right small.2)
    fun g third thirdAfter thirdReady made gMeans => ?_
  have fThird := made [f] f List.mem_cons_self _ fSecond
  refine ensures_pause thirdReady fun fourth fourthAfter fourthReady again => ?_
  have gFourth := again g List.mem_cons_self _ gMeans
  have fFourth := again f (List.mem_cons_of_mem g List.mem_cons_self) _ fThird
  have joins := fourth.supplies_combine (ready_reachable fourthReady) m .and _ _ _ _ fFourth gFourth
  refine ensures_call fourthReady trivial joins fun r last lastAfter lastReady joined means => ?_
  refine rest r last lastAfter lastReady (fun h member gn old => ?_) means
  have hFirst := start kept h member gn old
  have hSecond := waited h (List.mem_cons_of_mem f member) gn hFirst
  have hThird := made kept h member gn hSecond
  exact joined kept h member gn (again h (List.mem_cons_of_mem g (List.mem_cons_of_mem f member)) gn hThird)

theorem means_zero (ready : Ready m t id blocks ws journal) : ws.Means m 0 fun _ => false := by
  obtain ⟨store, found, _⟩ := ready.rests.store
  exact ⟨store, found, .inl (Nat.zero_le 1), store.eval_zero⟩

theorem ensures_step {index : Nat} {block : Block} {rel start : Ref} {fn gn : (Var → Bool) → Bool}
    {next : Ref → Script} (ready : Ready m t id blocks ws journal) (listed : blocks[index]? = some block)
    (relMeans : ws.Means m rel fn) (startMeans : ws.Means m start gn)
    (rest : ∀ r later after, Ready m t id blocks later after → later.Means m rel fn →
      later.Means m r
        (fun env => Quantifier.any.across (Var.sorted block.vars) (fun inner => fn inner && gn inner) env) →
      Ensures m t (next r) later after) :
    Ensures m t (Script.step m block.varset rel start next) ws journal := by
  refine ensures_pause ready fun first firstAfter firstReady waited => ?_
  have startFirst := waited start List.mem_cons_self gn startMeans
  have relFirst := waited rel (List.mem_cons_of_mem start List.mem_cons_self) fn relMeans
  have joins := first.supplies_combine (ready_reachable firstReady) m .and _ _ _ _ relFirst startFirst
  refine ensures_call firstReady trivial joins fun steps second secondAfter secondReady made means => ?_
  have relSecond := made [rel] rel List.mem_cons_self fn relFirst
  refine ensures_pause secondReady fun third thirdAfter thirdReady again => ?_
  have stepsThird := again steps List.mem_cons_self _ means
  have relThird := again rel (List.mem_cons_of_mem steps List.mem_cons_self) fn relSecond
  refine ensures_call thirdReady trivial (supplies_quantify thirdReady stepsThird listed) ?_
  exact fun r later after still carries bound =>
    rest r later after still (carries [rel] rel List.mem_cons_self fn relThird) bound

theorem ensures_back {index : Nat} {a b : Block} {rel ends : Ref} {fn : (Var → Bool) → Bool} {next : Ref → Script}
    (accept : Nat → Bool) (ready : Ready m t id blocks ws journal) (listed : blocks[index]? = some a)
    (relMeans : ws.Means m rel fn) (means : ws.Means m ends fun env => accept (b.code env))
    (rest : ∀ r later after, Ready m t id blocks later after → later.Means m rel fn →
      later.Means m r (fun env => accept (a.code env)) → Ensures m t (next r) later after) :
    Ensures m t (Script.back m p a b rel ends next) ws journal := by
  refine ensures_pause ready fun first firstAfter firstReady waited => ?_
  have endsFirst := waited ends List.mem_cons_self _ means
  have relFirst := waited rel (List.mem_cons_of_mem ends List.mem_cons_self) fn relMeans
  rintro ⟨sent, current, sends⟩
  have allocated : ∀ store, first.stores[m]? = some store → ∀ v, 0 < v → v ≤ store.numVars →
      0 < sent.image v ∧ sent.image v ≤ store.numVars := by
    intro store found v positive bound
    exact sent.sends_allocated b.vars a.vars sends store.numVars
      (ready_fits firstReady listed found).allocated v positive bound
  have renames := first.supplies_rename (ready_reachable firstReady) m p sent current _ _ endsFirst allocated
  refine ensures_call firstReady trivial renames fun r later after still carries renamed => ?_
  refine rest r later after still (carries [rel] rel List.mem_cons_self fn relFirst) ?_
  simpa only [sent.sends_code a b sends] using renamed

theorem ensures_compare {index : Nat} {block : Block} {values : List Nat} {rel result : Ref}
    {fn : (Var → Bool) → Bool} {next : Script} (ready : Ready m t id blocks ws journal)
    (listed : blocks[index]? = some block) (once : block.vars.Nodup) (distinct : values.Nodup)
    (small : ∀ n ∈ values, n < block.size) (relMeans : ws.Means m rel fn)
    (means : ws.Means m result fun env => values.any fun n => decide (block.code env = n))
    (rest : ∀ later after, Ready m t id blocks later after → later.Means m rel fn →
      later.Means m result (fun env => values.any fun n => decide (block.code env = n)) →
      Ensures m t next later after) :
    Ensures m t (Script.compare m t index block rel values result next) ws journal := by
  refine ensures_gather (fun n env => decide (block.code env = n)) ready (means_zero ready) ?_ ?_
  · intro n member kept next ws journal ready rest
    exact ensures_value ready listed (small n member) rest
  intro direct first firstAfter firstReady carries directMeans
  have resultFirst := carries result List.mem_cons_self _ means
  have relFirst := carries rel (List.mem_cons_of_mem result List.mem_cons_self) fn relMeans
  refine ensures_pause firstReady fun last lastAfter lastReady waited => ?_
  have directLast := waited direct List.mem_cons_self _ directMeans
  have resultLast := waited result (List.mem_cons_of_mem direct List.mem_cons_self) _ resultFirst
  have relLast := waited rel (by simp) fn relFirst
  obtain ⟨store, found, live, value⟩ := resultLast
  obtain ⟨other, here, directLive, directValue⟩ := directLast
  obtain rfl := Option.some.inj (found.symm.trans here)
  have sound := Workspace.reachable_sound last (fair_reachable last lastAfter lastReady.fair) m store found
  have fits := ready_fits lastReady listed found
  have inside : ∀ n ∈ values, n < 2 ^ block.width := fun n member => Nat.lt_of_lt_of_le (small n member) fits.wide
  -- one function has one node, however it has been built
  have same : result = direct := by
    refine (eval_injective store sound result direct live directLive).mp fun env => ?_
    rw [value, directValue]
    exact (Bool.false_or _).symm
  have counted := last.models_over_told m result block.varset store values.length found
    (block.count_codes store sound fits once values distinct inside result live value)
  exact ⟨⟨same, counted⟩, rest last lastAfter lastReady relLast ⟨store, found, live, value⟩⟩

theorem ensures_walk {current : Nat} {a b : Block} {rel start : Ref} {relation : List (Nat × Nat)}
    {states : List Nat} {route : List (List Nat)} (listed : blocks[current]? = some a) (once : a.vars.Nodup)
    (apart : a.vars.Disjoint b.vars) (wide : a.size ≤ 2 ^ a.width)
    (related : ∀ pair ∈ relation, pair.1 < a.size ∧ pair.2 < a.size) (small : ∀ i ∈ states, i < a.size)
    (stages : Stages relation states route) (ready : Ready m t id blocks ws journal)
    (relMeans : ws.Means m rel fun env =>
      relation.any fun pair => decide (a.code env = pair.1) && decide (b.code env = pair.2))
    (startMeans : ws.Means m start fun env => states.any fun i => decide (a.code env = i)) :
    Ensures m t (Script.walk m t p current a b rel route start) ws journal := by
  -- each image is the start of the next one, in whatever state it was reached
  induction route generalizing states start ws journal with
  | nil => trivial
  | cons reached route ih =>
      obtain ⟨distinct, members, further⟩ := stages
      have inside : ∀ j ∈ reached, j < a.size := by
        intro j member
        obtain ⟨i, _, step⟩ := (members j).mp member
        exact (related (i, j) step).2
      refine ensures_step ready listed relMeans startMeans fun ends ws journal ready relMeans endsMeans => ?_
      have across := Block.image_across a b once apart wide relation states reached small members
      have endsMeans : ws.Means m ends fun env => reached.any fun j => decide (b.code env = j) := by
        obtain ⟨store, found, live, value⟩ := endsMeans
        exact ⟨store, found, live, fun env => (value env).trans (across env)⟩
      refine ensures_back (fun n => reached.any fun j => decide (n = j)) ready listed relMeans endsMeans
        fun result ws journal ready relMeans resultMeans => ?_
      refine ensures_compare ready listed once distinct inside relMeans resultMeans
        fun ws journal ready relMeans resultMeans => ?_
      exact ih inside further ready relMeans resultMeans

end Rules

namespace Workspace

theorem blocks_apart (ws : Workspace) (journal : Journal) (fair : Fair ws journal) (t current coming : Nat)
    (table : BlockTable) (tabled : ws.tables[t]? = some table) (a b : Block) (left : table.blocks[current]? = some a)
    (right : table.blocks[coming]? = some b) (different : current ≠ coming) (same : b.size = a.size)
    (made : journal.Extended t current) (also : journal.Extended t coming) :
    a.vars.Nodup ∧ b.vars.Nodup ∧ a.vars.Disjoint b.vars ∧ b.width = a.width := by
  have laid := (fair_accounted ws journal fair).laid.laid t table tabled
  obtain ⟨first, firstFound, firstAscending, firstWidth⟩ := laid.standing current made
  obtain ⟨second, secondFound, secondAscending, secondWidth⟩ := laid.standing coming also
  obtain rfl := Option.some.inj (left.symm.trans firstFound)
  obtain rfl := Option.some.inj (right.symm.trans secondFound)
  refine ⟨firstAscending.imp fun less => Nat.ne_of_lt less, secondAscending.imp fun less => Nat.ne_of_lt less,
    laid.apart current coming a b made also different left right, ?_⟩
  rw [secondWidth, firstWidth, same]

-- An empty renaming can be made to take images back at any time, and goes on to
-- do so until it is changed. Whatever permitted requests come in between,
-- collections included, each image taken with it is the very node that the
-- states reached come to one by one, and that many assignments to the block
-- make it true.
theorem image_exact (ws : Workspace) (journal : Journal) (fair : Fair ws journal) (m t p current coming : Nat)
    (store : Store) (table : BlockTable) (a b : Block) (found : ws.stores[m]? = some store)
    (room : store.Roomy) (tabled : ws.tables[t]? = some table) (owned : table.owner = some store.id)
    (left : table.blocks[current]? = some a) (right : table.blocks[coming]? = some b) (different : current ≠ coming)
    (same : b.size = a.size) (made : journal.Extended t current) (also : journal.Extended t coming) :
    (∀ names, ws.renamings[p]? = some names → names.isEmpty = true →
      (ws.perform (.pairBlocks m t p coming current)).outcome = .ok .done ∧
        ∀ commands, (∀ command ∈ commands, command.changed ≠ some p) →
          ((ws.perform (.pairBlocks m t p coming current)).workspace.run commands).Paired p b a) ∧
    ∀ (relation : List (Nat × Nat)) (states : List Nat) (route : List (List Nat)),
      (∀ pair ∈ relation, pair.1 < a.size ∧ pair.2 < a.size) → (∀ i ∈ states, i < a.size) →
      Stages relation states route →
      Ensures m t (Script.image m t p current coming a b relation states route) ws journal := by
  obtain ⟨once, alsoOnce, apart, width⟩ := blocks_apart ws journal fair t current coming table tabled a b left right
    different same made also
  constructor
  · intro names named empty
    obtain ⟨sent, later, outcome, after, sends, _, _, current⟩ := ws.pair_blocks_sent m t p coming current store table
      names found tabled owned named empty b a right left width alsoOnce
    exact ⟨outcome, fun commands leave => run_paired _ p b a ⟨sent, after ▸ current, sends⟩ commands leave⟩
  intro relation states route related small stages
  have fits := (fair_accounted ws journal fair).fitted m t store table found tabled owned current a left
  have ready : Ready m t store.id table.blocks ws journal := by
    refine ⟨fair, fun other here => ?_, ⟨store, found, rfl⟩, ⟨table, tabled, owned, fun _ _ listed => listed⟩⟩
    exact Option.some.inj (found.symm.trans here) ▸ room
  refine ensures_gather (fun pair env => decide (a.code env = pair.1) && decide (b.code env = pair.2)) ready
    (means_zero ready) ?_ ?_
  · intro pair member kept next ws journal ready rest
    exact ensures_edge ready left right (same ▸ related pair member) rest
  intro rel ws journal ready _ relMeans
  refine ensures_gather (fun i env => decide (a.code env = i)) ready (means_zero ready) ?_ ?_
  · intro i member kept next ws journal ready rest
    exact ensures_value ready left (small i member) rest
  intro start ws journal ready carries startMeans
  have relMeans := carries rel List.mem_cons_self _ relMeans
  simp only [Bool.false_or] at relMeans startMeans
  exact ensures_walk left once apart fits.wide related small stages ready relMeans startMeans

-- Two blocks of four values each, and the steps from 0 to 1, from 1 to 2 and
-- from 2 to 3, along which nothing is left in the end. The renaming is entered
-- once, before all images, and the first pause is used for a collection.
theorem successors_image :
    ∃ (ws paired : Workspace) (journal : Journal) (a b : Block),
      ws = empty.run [.newStore {}, .newTable, .extend 0 0 [4, 4], .newRenaming] ∧
      (ws.perform (.pairBlocks 0 0 0 1 0)).outcome = .ok .done ∧
      paired = (ws.perform (.pairBlocks 0 0 0 1 0)).workspace ∧ paired.Paired 0 b a ∧ Fair paired journal ∧
      a.vars = [1, 3] ∧ b.vars = [2, 4] ∧ a.size = 4 ∧ b.size = 4 ∧
      Stages [(0, 1), (1, 2), (2, 3)] [0, 2] [[1, 3], [2], [3], []] ∧
      Ensures 0 0 (Script.image 0 0 0 0 1 a b [(0, 1), (1, 2), (2, 3)] [0, 2] [[1, 3], [2], [3], []]) paired journal ∧
      ∃ next, Script.image 0 0 0 0 1 a b [(0, 1), (1, 2), (2, 3)] [0, 2] [[1, 3], [2], [3], []] = .pause [0] next ∧
        Ensures 0 0 next (paired.perform (.collect 0)).workspace
          (⟨.collect 0, paired.perform (.collect 0)⟩ :: journal) := by
  obtain ⟨ws, journal, built, fair, made, also⟩ : ∃ (ws : Workspace) (journal : Journal),
      ws = empty.run [.newStore {}, .newTable, .extend 0 0 [4, 4], .newRenaming] ∧ Fair ws journal ∧
        journal.Extended 0 0 ∧ journal.Extended 0 1 := by
    obtain ⟨before, early⟩ := fair_run empty [] .start [.newStore {}, .newTable] (by simp [Journal.Allows])
    obtain ⟨old, start⟩ : ∃ old, old = empty.run [.newStore {}, .newTable] := ⟨_, rfl⟩
    rw [← start] at early
    have outcome : (old.perform (.extend 0 0 [4, 4])).outcome = .ok (.index 0) := by
      rw [start]
      decide +kernel
    have extended := fun i => Journal.extended_made before 0 0 0 [4, 4] (old.perform (.extend 0 0 [4, 4])) outcome i
      (Nat.zero_le i)
    have fair := Fair.step old before (.extend 0 0 [4, 4]) early trivial
    refine ⟨_, _, ?_, .step _ _ .newRenaming fair trivial, ?_, ?_⟩
    · rw [start]
      simp only [run, List.foldl_cons, List.foldl_nil]
    · exact (Journal.extended_quiet _ _ rfl 0 0).mpr (extended 0 (by decide))
    · exact (Journal.extended_quiet _ _ rfl 0 1).mpr (extended 1 (by decide))
  have named : ws.renamings[0]?.any (·.isEmpty) = true := by
    rw [built]
    decide +kernel
  obtain ⟨names, current, empty⟩ := (Option.any_eq_true _ _).mp named
  obtain ⟨store, table, found, room, tabled, owned, placed⟩ := ws.laid_out 0 0 1 [([1, 3], 4), ([2, 4], 4)]
    (by rw [built]; decide +kernel) (by rw [built]; decide +kernel)
  obtain ⟨a, left, aVars, aSize⟩ := placed 0 _ _ rfl
  obtain ⟨b, right, bVars, bSize⟩ := placed 1 _ _ rfl
  have size : b.size = a.size := bSize.trans aSize.symm
  have pairs := image_exact ws journal fair 0 0 0 0 1 store table a b found room tabled owned left right (by decide)
    size made also
  obtain ⟨once, alsoOnce, _, width⟩ := blocks_apart ws journal fair 0 0 1 table tabled a b left right (by decide) size
    made also
  obtain ⟨_, paired, outcome, after, _, stores, tables, _⟩ := ws.pair_blocks_sent 0 0 0 1 0 store table names found
    tabled owned current empty b a right left width alsoOnce
  have entered := after ▸ (pairs.1 names current empty).2 [] nofun
  have later := after ▸ Fair.step ws journal (.pairBlocks 0 0 0 1 0) fair trivial
  have first := (Journal.extended_quiet journal ⟨.pairBlocks 0 0 0 1 0, ws.perform (.pairBlocks 0 0 0 1 0)⟩ rfl 0 0).mpr
    made
  have second :=
    (Journal.extended_quiet journal ⟨.pairBlocks 0 0 0 1 0, ws.perform (.pairBlocks 0 0 0 1 0)⟩ rfl 0 1).mpr
    also
  have images := (image_exact paired _ later 0 0 0 0 1 store table a b (stores ▸ found) room (tables ▸ tabled) owned
    left right (by decide) size first second).2
  have stages : Stages [(0, 1), (1, 2), (2, 3)] [0, 2] [[1, 3], [2], [3], []] := by simp [Stages]
  have ensured := images [(0, 1), (1, 2), (2, 3)] [0, 2] [[1, 3], [2], [3], []] (by rw [aSize]; decide)
    (by rw [aSize]; decide) stages
  refine ⟨ws, paired, _, a, b, built, outcome, after.symm, entered, later, aVars, bVars, aSize, bSize, stages, ensured,
    _, rfl, ?_⟩
  exact ensured _ _ (collect_course 0 0 [0] paired _ later store (stores ▸ found) room fun f member =>
    .inl (List.mem_singleton.mp member ▸ Nat.zero_le 1))

end Workspace
end DomainDiagram
