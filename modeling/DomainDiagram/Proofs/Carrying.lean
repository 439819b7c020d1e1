import DomainDiagram.Proofs.Quantified
import DomainDiagram.Proofs.Ranges

set_option autoImplicit false

namespace DomainDiagram

open Store

theorem unread_agree (vars : List Var) (fn : (Var → Bool) → Bool)
    (free : ∀ v ∈ vars, ∀ env value, fn (Function.update env v value) = fn env) (env other : Var → Bool)
    (agree : ∀ v, v ∉ vars → other v = env v) : fn other = fn env := by
  have reads : ∀ env other : Var → Bool, (∀ v, v ∉ vars → other v = env v) → fn other = true → fn env = true := by
    intro env other agree value
    rw [← Quantifier.across_unread .any vars fn free env, Quantifier.across_any]
    exact ⟨other, agree, value⟩
  exact Bool.eq_iff_iff.mpr ⟨reads env other agree, reads other env fun v outside => (agree v outside).symm⟩

namespace Renaming

theorem sends_reverse (names : Renaming) (sources targets : List Var) (sends : names.Sends sources targets) :
    names.Sends sources.reverse targets.reverse := by
  constructor
  · rw [List.map_reverse, sends.onto]
  · exact fun v absent => sends.others v fun member => absent (List.mem_reverse.mpr member)

theorem sends_back (there back : Renaming) (sources targets : List Var) (sends : there.Sends sources targets)
    (returns : back.Sends targets sources) (v : Var) (outside : v ∉ targets) : back.image (there.image v) = v := by
  by_cases source : v ∈ sources
  · have home : (sources.map there.image).map back.image = sources := by rw [sends.onto, returns.onto]
    rw [List.map_map] at home
    exact List.map_inj_left.mp (home.trans (List.map_id sources).symm) v source
  · rw [sends.others v source, returns.others v outside]

end Renaming

namespace Workspace

section

variable (ws : Workspace) (m t p : Nat) (table : BlockTable) {spare : Nat} (engaged : ws.Engaged m t table spare)

include engaged

theorem engaged_same (later : Workspace) (reachable : later.Reachable) (stores : later.stores = ws.stores)
    (tables : later.tables = ws.tables) : later.Engaged m t table spare := by
  refine ⟨reachable, fun store found => engaged.room store (stores ▸ found), ?_, tables ▸ engaged.tabled⟩
  exact stores ▸ engaged.store

theorem engaged_pairs (source target : Nat) (a b : Block) (first : table.blocks[source]? = some a)
    (second : table.blocks[target]? = some b) (same : a.width = b.width) (once : a.vars.Nodup) (names : Renaming)
    (current : ws.renamings[p]? = some names) (empty : names.isEmpty = true) :
    ∃ sent later, (ws.perform (.pairBlocks m t p source target)).outcome = .ok .done ∧
      (ws.perform (.pairBlocks m t p source target)).workspace = later ∧ sent.Sends a.vars b.vars ∧
      later.stores = ws.stores ∧ later.renamings[p]? = some sent ∧ later.Engaged m t table spare := by
  obtain ⟨store, found, owned⟩ := engaged.store
  obtain ⟨sent, later, outcome, after, sends, stores, tables, named⟩ := ws.pair_blocks_sent m t p source target store
    table names found engaged.tabled owned current empty a b first second same once
  have reachable : later.Reachable := after ▸ reachable_perform ws engaged.reachable _
  have still := engaged_same ws m t table engaged later reachable stores tables
  exact ⟨sent, later, outcome, after, sends, stores, named, still⟩

theorem engaged_renames (sent : Renaming) (current : ws.renamings[p]? = some sent) (a b : Block) (target : Nat)
    (second : table.blocks[target]? = some b) (sends : sent.Sends a.vars b.vars) (f : Ref) (fn : (Var → Bool) → Bool)
    (means : ws.Means m f fn) : ws.Supplies m (.rename m p f) fun env => fn fun v => env (sent.image v) := by
  refine ws.supplies_rename engaged.reachable m p sent current f fn means fun store found v positive bound => ?_
  have shaped := engaged_shaped ws m t table engaged target b second store found
  exact sent.sends_allocated a.vars b.vars sends store.numVars shaped.allocated v positive bound

variable (source target : Nat) (a b : Block) (second : table.blocks[target]? = some b) (sent : Renaming)
  (sends : sent.Sends a.vars b.vars)

include second sends

theorem engaged_returns (first : table.blocks[source]? = some a) (same : a.width = b.width) (once : b.vars.Nodup)
    (f r : Ref) (fn : (Var → Bool) → Bool)
    (free : ∀ v ∈ b.vars, ∀ env value, fn (Function.update env v value) = fn env) (means : ws.Means m f fn)
    (renamed : ws.Means m r fun env => fn fun v => env (sent.image v)) (q : Nat) (names : Renaming)
    (other : ws.renamings[q]? = some names) (empty : names.isEmpty = true) :
    (ws.perform (.pairBlocks m t q target source)).outcome = .ok .done ∧
      ∃ home, (ws.perform (.pairBlocks m t q target source)).workspace.Serves [(.rename m q r, f)] home := by
  obtain ⟨back, paired, outcome, after, returns, stores, named, still⟩ :=
    engaged_pairs ws m t q table engaged target source b a second first same.symm once names other empty
  have keeps := ws.means_stores paired stores m
  have renames := engaged_renames paired m t q table still back named b a source first returns r _
    (keeps r _ renamed)
  have known : paired.Means m f fun env => fn fun v => env (back.image (sent.image v)) := by
    refine paired.means_congr m f fn _ (fun env => ?_) (keeps f fn means)
    -- the variables of the target do not come back as they were, but are not read either
    refine (unread_agree b.vars fn free env _ fun v outside => ?_).symm
    rw [sent.sends_back back a.vars b.vars sends returns v outside]
  exact ⟨outcome, after ▸ engaged_known paired m t table still _ _ renames f known⟩

variable (current : ws.renamings[p]? = some sent)

include current

theorem engaged_across (accept : Nat → Bool) (one other : Command)
    (left : ws.Supplies m one fun env => accept (a.code env))
    (right : ∀ later : Workspace, later.Engaged m t table spare →
      later.Supplies m other fun env => accept (b.code env)) :
    ∃ f g last, ws.Serves [(one, f), (.rename m p f, g), (other, g)] last := by
  obtain ⟨f, first, fAnswer, toFirst, firstEngaged, fMeans⟩ := engaged_serves ws m t table engaged _ _ left
  have renames := engaged_renames first m t p table firstEngaged sent (toFirst.names ▸ current) a b target second sends
    f _ fMeans
  obtain ⟨g, middle, gAnswer, _, middleEngaged, gMeans⟩ := engaged_serves first m t table firstEngaged _ _ renames
  have known := means_congr middle m g _ _ (fun env => congrArg accept (sent.sends_code b a sends env)) gMeans
  obtain ⟨last, again⟩ := engaged_known middle m t table middleEngaged _ _ (right middle middleEngaged) g known
  have onward := serves_append first middle last _ _ gAnswer again
  exact ⟨f, g, last, serves_append ws first last _ _ fAnswer onward⟩

end
end Workspace

-- Any renaming that is empty takes r back to f, once the target is paired with the source.
def Returns (ws : Workspace) (m t source target : Nat) (f r : Ref) : Prop :=
  ∀ after : Workspace, after.Reachable → after.stores = ws.stores → after.tables = ws.tables →
    ∀ q names, after.renamings[q]? = some names → names.isEmpty = true →
      (after.perform (.pairBlocks m t q target source)).outcome = .ok .done ∧
        ∃ home, (after.perform (.pairBlocks m t q target source)).workspace.Serves [(.rename m q r, f)] home

-- What renaming p does that sends one block to another. The two may share variables.
structure Carrying (ws : Workspace) (m t p source target : Nat) (a b : Block) (sent : Renaming) : Prop where
  bits : sent.Sends a.bits b.bits
  carried : ∀ f fn, ws.Means m f fn → ∃ r later, ws.Serves [(.rename m p f, r)] later ∧
    (later.Means m r fun env => fn fun v => env (sent.image v)) ∧
    (b.vars.Nodup → (∀ v ∈ b.vars, ∀ env value, fn (Function.update env v value) = fn env) →
      Returns later m t source target f r)
  values : ∀ n, n ≤ a.size → n ≤ b.size → ∃ f g later, ws.Serves [(.encode m t (.value source n), f),
    (.rename m p f, g), (.encode m t (.value target n), g)] later
  ranges : a.size = b.size → ∃ f g later, ws.Serves [(.encode m t (.legal source), f),
    (.rename m p f, g), (.encode m t (.legal target), g)] later

-- What is renamed may have been made later, while the renaming and the table are the same.
theorem pairing_carries (ws : Workspace) (reachable : ws.Reachable) (m t p : Nat) (store : Store) (table : BlockTable)
    (names : Renaming) (found : ws.stores[m]? = some store) (room : store.Roomy)
    (tabled : ws.tables[t]? = some table) (owned : table.owner = some store.id)
    (current : ws.renamings[p]? = some names) (empty : names.isEmpty = true) (source target : Nat) (a b : Block)
    (first : table.blocks[source]? = some a) (second : table.blocks[target]? = some b) (same : a.width = b.width)
    (once : a.vars.Nodup) :
    ∃ sent paired, (ws.perform (.pairBlocks m t p source target)).outcome = .ok .done ∧
      (ws.perform (.pairBlocks m t p source target)).workspace = paired ∧ paired.stores = ws.stores ∧
      paired.renamings[p]? = some sent ∧ paired.Engaged m t table 3 ∧ ∀ later : Workspace, later.Engaged m t table 3 →
        later.renamings[p]? = some sent → Carrying later m t p source target a b sent := by
  have engaged := ws.engaged_found reachable m t store table found 3 room tabled owned
  obtain ⟨sent, paired, outcome, after, sends, stores, named, still⟩ :=
    ws.engaged_pairs m t p table engaged source target a b first second same once names current empty
  refine ⟨sent, paired, outcome, after, stores, named, still, fun later ready known => ?_⟩
  constructor
  case bits => exact sent.sends_reverse a.vars b.vars sends
  case carried =>
    intro f fn means
    have renames := later.engaged_renames m t p table ready sent known a b target second sends f fn means
    obtain ⟨r, last, answer, onward, ended, value⟩ := later.engaged_serves m t table ready _ _ renames
    refine ⟨r, last, answer, value, fun distinct free after onwards stores tables q names other none => ?_⟩
    have again := last.engaged_same m t table ended after onwards stores tables
    exact after.engaged_returns m t table again source target a b second sent sends first same distinct f r fn free
      (last.means_stores after stores m f fn (onward.means f fn means)) (last.means_stores after stores m r _ value) q
      names other none
  case values =>
    intro n small also
    have spells := fun later (ready : Workspace.Engaged later m t table 3) =>
      later.engaged_spells m t table ready (by decide) target n b second also
    have left := later.engaged_spells m t table ready (by decide) source n a first small
    rw [same] at left
    exact later.engaged_across m t p table ready target a b second sent sends known
      (fun k => decide (k = n % 2 ^ b.width)) _ _ left spells
  case ranges =>
    intro size
    have left := later.engaged_legal m t table ready source a first (by decide)
    rw [size] at left
    exact later.engaged_across m t p table ready target a b second sent sends known (fun k => decide (k < b.size)) _ _
      left fun next still => next.engaged_legal m t table still target b second (by decide)

-- The bits of the two blocks lie between each other, and one code of each is not legal.
theorem dealt_carrying : ∃ (ws : Workspace) (store : Store) (table : BlockTable) (names : Renaming) (a b : Block),
    ws = Workspace.empty.run [.newStore {}, .newTable, .extend 0 0 [3, 3], .newRenaming] ∧ ws.Reachable ∧
      ws.stores[0]? = some store ∧ store.Roomy ∧ ws.tables[0]? = some table ∧ table.owner = some store.id ∧
      ws.renamings[0]? = some names ∧ names.isEmpty = true ∧ table.blocks[0]? = some a ∧ table.blocks[1]? = some b ∧
      a.vars = [1, 3] ∧ b.vars = [2, 4] ∧ a.size = 3 ∧ b.size = 3 ∧
      ∃ sent paired, (ws.perform (.pairBlocks 0 0 0 0 1)).outcome = .ok .done ∧
        (ws.perform (.pairBlocks 0 0 0 0 1)).workspace = paired ∧ paired.stores = ws.stores ∧
        paired.renamings[0]? = some sent ∧ paired.Engaged 0 0 table 3 ∧ ∀ later : Workspace,
          later.Engaged 0 0 table 3 → later.renamings[0]? = some sent → Carrying later 0 0 0 0 1 a b sent := by
  obtain ⟨ws, built⟩ : ∃ ws, ws = Workspace.empty.run [.newStore {}, .newTable, .extend 0 0 [3, 3], .newRenaming] :=
    ⟨_, rfl⟩
  have reachable : ws.Reachable := ⟨_, built.symm⟩
  obtain ⟨store, table, found, room, tabled, owned, placed⟩ := ws.laid_out 0 0 1 [([1, 3], 3), ([2, 4], 3)]
    (by rw [built]; decide +kernel) (by rw [built]; decide +kernel)
  obtain ⟨a, first, aVars, aSize⟩ := placed 0 _ _ rfl
  obtain ⟨b, second, bVars, bSize⟩ := placed 1 _ _ rfl
  have renamed : ws.renamings[0]?.any (·.isEmpty) = true := by
    rw [built]
    decide +kernel
  obtain ⟨names, current, empty⟩ := (Option.any_eq_true _ _).mp renamed
  have same : a.width = b.width := by
    rw [Block.width, Block.width, aVars, bVars]
    rfl
  have once : a.vars.Nodup := by
    rw [aVars]
    decide
  exact ⟨ws, store, table, names, a, b, built, reachable, found, room, tabled, owned, current, empty, first, second,
    aVars, bVars, aSize, bSize, pairing_carries ws reachable 0 0 0 store table names found room tabled owned current
      empty 0 1 a b first second same once⟩

end DomainDiagram
