import DomainDiagram.Proofs.Histories

set_option autoImplicit false

namespace DomainDiagram

namespace Action

open Store

def Gives (book : Book) (act : Action Ref) (store : Store) (fn : (Var → Bool) → Bool) : Prop :=
  ∃ r next, act store = .ok r next ∧ Advances book store next ∧ next.Live r ∧
    ∀ env, next.eval r env = fn env

theorem gives_settled (book : Book) (act : Action Ref) (store : Store) (coherent : store.Coherent book)
    (key : OpKey) (fn : (Var → Bool) → Bool)
    (ends : Ends act store (fun r next => Advances book store next ∧ next.Settled book key r)
      (fun _ next => Advances book store next ∧ ¬ ∀ f ∈ key.operands, store.Live f))
    (operands : ∀ f ∈ key.operands, store.Live f)
    (right : ∀ (r : Ref) (next : Store), next.Sound →
      (∀ f ∈ key.operands, ∀ env, next.eval f env = store.eval f env) →
      next.Settled book key r → ∀ env, next.eval r env = fn env) : Gives book act store fn := by
  obtain ⟨r, next, done, advanced, settled⟩ :=
    ends_done act store _ _ ends fun _ _ known => known.2 operands
  have grown := advances_extends book store next advanced
  have sound := advanced.coherent.sound
  refine ⟨r, next, done, advanced, ?_, right r next sound (fun f member env => ?_) settled⟩
  · exact settled_live next sound book key r (fun f member => extends_live store next grown f (operands f member))
      settled
  · exact eval_extends store next coherent.sound sound grown f (operands f member) env

theorem gives_combine (book : Book) (op : Connective) (store : Store) (coherent : store.Coherent book)
    (f g : Ref) (left : store.Live f) (right : store.Live g) :
    Gives book (combine op f g) store fun env => op.eval (store.eval f env) (store.eval g env) := by
  refine gives_settled book _ store coherent (.combine op f g) _ (advance_combine book op store coherent f g)
    ?_ ?_
  · simp [OpKey.operands, left, right]
  · intro r next sound kept settled env
    rw [combines_eval next sound op f g r settled, kept f (by simp [OpKey.operands]),
      kept g (by simp [OpKey.operands])]

theorem gives_negate (book : Book) (store : Store) (coherent : store.Coherent book) (f : Ref)
    (live : store.Live f) : Gives book (negate f) store fun env => !store.eval f env := by
  refine gives_settled book _ store coherent (.negate f) _ (advance_negate book store coherent f) ?_ ?_
  · simp [OpKey.operands, live]
  · intro r next sound kept settled env
    rw [negates_eval next sound f r settled, kept f (by simp [OpKey.operands])]

theorem gives_choose (book : Book) (store : Store) (coherent : store.Coherent book) (f g h : Ref)
    (first : store.Live f) (second : store.Live g) (third : store.Live h) :
    Gives book (choose f g h) store fun env =>
      if store.eval f env then store.eval g env else store.eval h env := by
  refine gives_settled book _ store coherent (.choose f g h) _ (advance_choose book store coherent f g h) ?_ ?_
  · simp [OpKey.operands, first, second, third]
  · intro r next sound kept settled env
    rw [chooses_eval next sound f g h r settled, kept f (by simp [OpKey.operands]),
      kept g (by simp [OpKey.operands]), kept h (by simp [OpKey.operands])]

theorem gives_fold (book : Book) (op : Connective) (fs : List Ref) (first : Ref) (store : Store)
    (coherent : store.Coherent book) (live : store.Live first) (operands : ∀ f ∈ fs, store.Live f) :
    Gives book (fs.foldlM (combine op) first) store fun env =>
      fs.foldl (fun value f => op.eval value (store.eval f env)) (store.eval first env) := by
  induction fs generalizing first store with
  | nil => exact ⟨first, store, rfl, advances_refl book store coherent, live, fun _ => rfl⟩
  | cons f rest ih =>
      have fLive : store.Live f := operands f List.mem_cons_self
      have restLive : ∀ g ∈ rest, store.Live g := fun g member => operands g (List.mem_cons_of_mem f member)
      obtain ⟨middle, later, done, advanced, middleLive, value⟩ :=
        gives_combine book op store coherent first f live fLive
      have grown := advances_extends book store later advanced
      have sound := advanced.coherent.sound
      obtain ⟨r, next, restDone, further, rLive, restValue⟩ := ih middle later advanced.coherent middleLive
        fun g member => extends_live store later grown g (restLive g member)
      refine ⟨r, next, ?_, advances_trans book store later next advanced further, rLive, fun env => ?_⟩
      · rw [List.foldlM_cons]
        simpa only [bind, EStateM.bind, done] using restDone
      · simp only [restValue, value, List.foldl_cons]
        refine List.foldl_ext _ _ _ fun carried g member => ?_
        rw [eval_extends store later coherent.sound sound grown g (restLive g member)]

section Joint

variable (op : Connective) (joint : (Ref → Bool) → List Ref → Bool)
variable (assoc : ∀ a b c, op.eval (op.eval a b) c = op.eval a (op.eval b c))
variable (none : ∀ value b, op.eval b (joint value []) = b)
variable (more : ∀ value f rest, joint value (f :: rest) = op.eval (value f) (joint value rest))
include assoc none more

theorem fold_joint (value : Ref → Bool) (fs : List Ref) (first : Bool) :
    fs.foldl (fun carried f => op.eval carried (value f)) first = op.eval first (joint value fs) := by
  induction fs generalizing first with
  | nil => rw [List.foldl_nil, none]
  | cons f rest ih => rw [List.foldl_cons, ih, more, assoc]

theorem gives_joint (book : Book) (store : Store) (coherent : store.Coherent book) (first : Ref) (small : first ≤ 1)
    (unit : ∀ b, op.eval first.isOne b = b) (fs : List Ref) (operands : ∀ f ∈ fs, store.Live f) :
    Gives book (fs.foldlM (combine op) first) store fun env => joint (fun f => store.eval f env) fs := by
  obtain ⟨r, next, done, advanced, live, value⟩ := gives_fold book op fs first store coherent (.inl small) operands
  refine ⟨r, next, done, advanced, live, fun env => (value env).trans ?_⟩
  beta_reduce
  rw [fold_joint op joint assoc none more, eval_terminal store env first small, unit]

end Joint

theorem gives_conjunction (book : Book) (store : Store) (coherent : store.Coherent book) (fs : List Ref)
    (operands : ∀ f ∈ fs, store.Live f) :
    Gives book (conjunction fs) store fun env => fs.all fun f => store.eval f env :=
  gives_joint .and (fun value fs => fs.all value) Bool.and_assoc (fun _ => Bool.and_true) (fun _ _ _ => rfl)
    book store coherent 1 (Nat.le_refl 1) Bool.true_and fs operands

theorem gives_disjunction (book : Book) (store : Store) (coherent : store.Coherent book) (fs : List Ref)
    (operands : ∀ f ∈ fs, store.Live f) :
    Gives book (disjunction fs) store fun env => fs.any fun f => store.eval f env :=
  gives_joint .or (fun value fs => fs.any value) Bool.or_assoc (fun _ => Bool.or_false) (fun _ _ _ => rfl)
    book store coherent 0 (Nat.zero_le 1) Bool.false_or fs operands

end Action

namespace Workspace

def Yields (ws : Workspace) (m : Nat) (construction : Construction) (fn : (Var → Bool) → Bool) : Prop :=
  ∃ r next, (ws.perform (.construct m construction)).outcome = .ok (.ref r) ∧
    (ws.perform (.construct m construction)).workspace.stores[m]? = some next ∧
    next.Live r ∧ ∀ env, next.eval r env = fn env

theorem gives_yields (ws : Workspace) (book : Book) (m : Nat) (store : Store)
    (found : ws.stores[m]? = some store) (construction : Construction) (fn : (Var → Bool) → Bool)
    (gives : Action.Gives book construction.run store fn) : ws.Yields m construction fn := by
  obtain ⟨r, next, done, _, live, value⟩ := gives
  have reply : ws.perform (.construct m construction) = ⟨.ok (.ref r), [], ws.setStore m next⟩ := by
    simp only [perform, construct, on_store_run, found, Request.perform, done]
  have inside : m < ws.stores.size := (Array.getElem?_eq_some_iff.mp found).1
  refine ⟨r, next, ?_, ?_, live, value⟩
  · rw [reply]
  · rw [reply]
    exact Array.getElem?_setIfInBounds_self_of_lt inside

structure Exact (ws : Workspace) (m : Nat) (store : Store) : Prop where
  combine : ∀ op f g, store.Live f → store.Live g →
    ws.Yields m (.combine op f g) fun env => op.eval (store.eval f env) (store.eval g env)
  negate : ∀ f, store.Live f → ws.Yields m (.negate f) fun env => !store.eval f env
  choose : ∀ f g h, store.Live f → store.Live g → store.Live h →
    ws.Yields m (.choose f g h) fun env =>
      if store.eval f env then store.eval g env else store.eval h env
  conjunction : ∀ fs, (∀ f ∈ fs, store.Live f) →
    ws.Yields m (.conjunction fs) fun env => fs.all fun f => store.eval f env
  disjunction : ∀ fs, (∀ f ∈ fs, store.Live f) →
    ws.Yields m (.disjunction fs) fun env => fs.any fun f => store.eval f env

theorem reachable_exact (ws : Workspace) (reachable : ws.Reachable) (m : Nat) (store : Store)
    (found : ws.stores[m]? = some store) : ws.Exact m store := by
  obtain ⟨book, _, trusted⟩ := reachable_trusted ws reachable
  have coherent := trusted m store found
  constructor
  case combine =>
    intro op f g left right
    exact gives_yields ws book m store found _ _ (Action.gives_combine book op store coherent f g left right)
  case negate =>
    intro f live
    exact gives_yields ws book m store found _ _ (Action.gives_negate book store coherent f live)
  case choose =>
    intro f g h first second third
    exact gives_yields ws book m store found _ _
      (Action.gives_choose book store coherent f g h first second third)
  case conjunction =>
    intro fs operands
    exact gives_yields ws book m store found _ _ (Action.gives_conjunction book store coherent fs operands)
  case disjunction =>
    intro fs operands
    exact gives_yields ws book m store found _ _ (Action.gives_disjunction book store coherent fs operands)

theorem literals_exact :
    ∃ (ws : Workspace) (store : Store),
      ws = empty.run [.newStore {}, .newVars 0 2, .construct 0 (.literal 1 true),
        .construct 0 (.literal 2 true)] ∧
      ws.stores[0]? = some store ∧ store.Live 2 ∧ store.Live 3 ∧ ws.Exact 0 store :=
  ⟨_, _, rfl, rfl, .inr ⟨_, by decide, rfl⟩, .inr ⟨_, by decide, rfl⟩, reachable_exact _ ⟨_, rfl⟩ 0 _ rfl⟩

end Workspace
end DomainDiagram
