import DistributedCluster.Executor.Lifecycle
/-!
# Accepted tasks

With stable views, a task whose submission was accepted is stored by every
owner of its partition, whatever requests and answers got lost or arrived twice
on the way. Requests only add entries: what is stored stays as it is.
-/

namespace Executor

open Async

/-- The views are the same, and whoever kept an entry for a task still keeps one. -/
structure Grown (s s' : QueueCluster) : Prop where
  view : s'.view = s.view
  kept : ∀ n p id, (s.task n p id).isSome → (s'.task n p id).isSome

instance : IsPreorder QueueCluster Grown where
  refl _ := ⟨rfl, fun _ _ _ h => h⟩
  trans _ _ _ h h' := ⟨h'.view.trans h.view, fun n p id hs => h'.kept n p id (h.kept n p id hs)⟩

variable {cfg : MapConfig} {net : Network} {s s' : QueueCluster} {n m : NodeId} {p : Nat} {id : TaskId} {task : Task}
  {entry : TaskEntry}

theorem act_grown {e : QueueAct} {x : QueueI.Ans e} (h : QueueSem cfg net e s x s') : Grown s s' := by
  refine ⟨(act_frame h).1, fun n p id hs => ?_⟩
  obtain ⟨entry, hentry⟩ := Option.isSome_iff_exists.1 hs
  obtain ⟨entry', hentry', -⟩ := entry_effect h hentry
  exact Option.isSome_iff_exists.2 ⟨entry', hentry'⟩

theorem beside_grown {l : QueuePool} (h : Beside cfg s l s') : Grown s s' := by
  cases h with
  | tick clock => exact ⟨rfl, fun _ _ _ h => h⟩
  | @renewal m task_id _ =>
    obtain ⟨-, -, hview, htask⟩ := renewal_round_entry cfg s m task_id
    refine ⟨hview, fun n p id hs => ?_⟩
    rcases htask n p id with hsame | ⟨entry, lease, -, -, hnew⟩
    · rwa [hsame]
    · rw [hnew]
      rfl

/-! ## What a submission leaves behind -/

section Submission

/-- Runs of one program beside others. -/
abbrev RunsBeside (cfg : MapConfig) (net : Network) {α : Type} (p : QueueM α) : QueueCluster → α → QueueCluster → Prop :=
  Runs (QueueSem cfg net) Grown p

theorem RunsBeside.grown {α : Type} {q : QueueM α} {a : α} (h : RunsBeside cfg net q s a s') : Grown s s' :=
  h.within fun _ _ _ _ hact => act_grown hact

theorem membership_returns {view : MembershipService} (h : RunsBeside cfg net (membership n) s view s') :
    view = s.view n := by
  obtain ⟨s₁, s₂, h₁, ⟨rfl, rfl⟩, -⟩ := Runs.act h
  rw [h₁.view]

theorem get_owners_returns {owners : List NodeId} (h : RunsBeside cfg net (get_owners cfg n p) s owners s') :
    owners = cfg.partitioner.get_owners (s.view n) p := by
  obtain ⟨view, s₁, hview, hend⟩ := runs_bind.1 h
  obtain ⟨rfl, -⟩ := runs_pure.1 hend
  rw [membership_returns hview]

theorem get_member_returns {o : Option Node} (h : RunsBeside cfg net (get_member n m) s o s') :
    o = (s.view n).get_member m := by
  obtain ⟨view, s₁, hview, hend⟩ := runs_bind.1 h
  obtain ⟨rfl, -⟩ := runs_pure.1 hend
  rw [membership_returns hview]

theorem store_local_returns {u : Unit} (h : RunsBeside cfg net (store_local n p id entry) s u s') :
    (s'.task n p id).isSome := by
  obtain ⟨s₁, s₂, -, rfl, h₂⟩ := Runs.act h
  refine h₂.kept n p id ?_
  rw [QueueCluster.task_store_local, if_pos ⟨rfl, rfl, rfl⟩]
  cases s₁.task n p id <;> rfl

/-- An answered request was handled by the node that listens at the address. -/
theorem request_served {ρ : Type} {addr : SocketAddr} {req : TaskRequest} {handler : NodeId → QueueM ρ} {attempts : Nat}
    {x : ρ} (h : RunsBeside cfg net (request n addr req handler attempts) s (.ok x) s') :
    ∃ m s₁ s₂, cfg.host n addr = some m ∧ Grown s s₁ ∧ RunsBeside cfg net (handler m) s₁ x s₂ ∧ Grown s₂ s' := by
  obtain ⟨i, m, s₁, s₂, s₃, h₁, hsend, hserve, h₃⟩ := runs_retry (fun _ _ _ _ hact => act_grown hact) h
  have hgrown : Grown s₁ s₂ := RunsBeside.grown hsend
  obtain ⟨s₄, s₅, -, ⟨hfate, -⟩, -⟩ := Runs.act hsend
  exact ⟨m, s₂, s₃, hfate, IsTrans.trans _ _ _ h₁ hgrown, hserve, h₃⟩

theorem request_returns {ρ : Type} {addr : SocketAddr} {req : TaskRequest} {handler : NodeId → QueueM ρ} {attempts : Nat}
    {x : ρ} (hm : cfg.host n addr = some m)
    (h : RunsBeside cfg net (request n addr req handler attempts) s (.ok x) s') :
    ∃ s₁ s₂, Grown s s₁ ∧ RunsBeside cfg net (handler m) s₁ x s₂ ∧ Grown s₂ s' := by
  obtain ⟨m', s₁, s₂, hhost, h₁, hserve, h₂⟩ := request_served h
  rw [hhost] at hm
  cases hm
  exact ⟨s₁, s₂, h₁, hserve, h₂⟩

/-- Requests of `n` to `m` reach `m`. -/
def Reach (cfg : MapConfig) (view : NodeId → MembershipService) (n m : NodeId) : Prop :=
  ∃ node, (view n).get_member m = some node ∧ cfg.host n node.http_addr = some m

theorem replicate_task_to_backup_returns (hreach : Reach cfg s.view n m) {u : Unit}
    (h : RunsBeside cfg net (replicate_task_to_backup n m p id entry) s (.ok u) s') : (s'.task m p id).isSome := by
  obtain ⟨o, s₁, hmember, hrest⟩ := runs_bind.1 h
  obtain ⟨node, hnode, hhost⟩ := hreach
  rw [get_member_returns hmember, hnode] at hrest
  obtain ⟨r, s₂, hrequest, hend⟩ := runs_bind.1 hrest
  cases r with
  | error e => cases (runs_pure.1 hend).1
  | ok status =>
    obtain ⟨s₃, s₄, -, hserve, h₄⟩ := request_returns hhost hrequest
    obtain ⟨_, s₅, hstore, hok⟩ := runs_bind.1 hserve
    have hkept : Grown s₅ s₂ := IsTrans.trans _ _ _ (runs_pure.1 hok).2 h₄
    have hend' : Grown s₂ s' := RunsBeside.grown hend
    exact hend'.kept _ _ _ (hkept.kept _ _ _ (store_local_returns hstore))

theorem replicate_all_returns {backups : List NodeId} {s : QueueCluster} (hreach : ∀ b ∈ backups, Reach cfg s.view n b)
    {u : Unit} (h : RunsBeside cfg net (replicate_all n p id entry backups) s (.ok u) s') :
    ∀ b ∈ backups, (s'.task b p id).isSome := by
  induction backups generalizing s with
  | nil => exact fun b hb => by cases hb
  | cons backup backups ih =>
    obtain ⟨r, s₁, hfirst, hrest⟩ := runs_bind.1 h
    cases r with
    | error e => cases (runs_pure.1 hrest).1
    | ok v =>
      have hgrown : Grown s s₁ := RunsBeside.grown hfirst
      have hrest' : Grown s₁ s' := RunsBeside.grown hrest
      intro b hb
      rcases List.mem_cons.1 hb with rfl | hb
      · exact hrest'.kept _ _ _ (replicate_task_to_backup_returns (hreach b List.mem_cons_self) hfirst)
      · refine ih (fun b hb => ?_) hrest b hb
        rw [hgrown.view]
        exact hreach b (List.mem_cons_of_mem _ hb)

/-- The node itself keeps an entry, however the replication ends. -/
theorem store_as_primary_own {r : Result Unit} (h : RunsBeside cfg net (store_as_primary cfg n p id entry) s r s') :
    (s'.task n p id).isSome := by
  obtain ⟨_, s₁, hstore, hrest⟩ := runs_bind.1 h
  have hgrown : Grown s₁ s' := RunsBeside.grown hrest
  exact hgrown.kept _ _ _ (store_local_returns hstore)

/-- If it ends well, so do the owners in its view but the first. -/
theorem store_as_primary_stores (hreach : ∀ b ∈ (cfg.partitioner.get_owners (s.view n) p).tail, Reach cfg s.view n b)
    {u : Unit} (h : RunsBeside cfg net (store_as_primary cfg n p id entry) s (.ok u) s') :
    (s'.task n p id).isSome ∧ ∀ b ∈ (cfg.partitioner.get_owners (s.view n) p).tail, (s'.task b p id).isSome := by
  refine ⟨store_as_primary_own h, ?_⟩
  obtain ⟨_, s₁, hstore, hrest⟩ := runs_bind.1 h
  obtain ⟨owners, s₂, howners, hall⟩ := runs_bind.1 hrest
  have h₁ : Grown s s₁ := RunsBeside.grown hstore
  have h₂ : Grown s₁ s₂ := RunsBeside.grown howners
  have hview : s₂.view = s.view := h₂.view.trans h₁.view
  have heq : owners = cfg.partitioner.get_owners (s.view n) p := by rw [get_owners_returns howners, h₁.view]
  subst heq
  exact replicate_all_returns (hview ▸ hreach) hall

theorem handle_internal_submit_task_stores {req : ForwardTaskRequest}
    (hreach : ∀ b ∈ (cfg.partitioner.get_owners (s.view m) req.partition).tail, Reach cfg s.view m b)
    {response : StatusCode × SubmitTaskResponse} (hok : response.1.is_success = true)
    (h : RunsBeside cfg net (handle_internal_submit_task cfg m req) s response s') :
    (s'.task m req.partition req.task_id).isSome ∧
      ∀ b ∈ (cfg.partitioner.get_owners (s.view m) req.partition).tail, (s'.task b req.partition req.task_id).isSome := by
  obtain ⟨entry, s₁, hentry, hrest⟩ := runs_bind.1 h
  obtain ⟨r, s₂, hstore, hend⟩ := runs_bind.1 hrest
  have h₁ : Grown s s₁ := RunsBeside.grown hentry
  cases r with
  | error e =>
    obtain ⟨rfl, -⟩ := runs_pure.1 hend
    cases hok
  | ok u =>
    obtain ⟨-, h₂⟩ := runs_pure.1 hend
    rw [← h₁.view] at hreach ⊢
    obtain ⟨hself, htail⟩ := store_as_primary_stores hreach hstore
    exact ⟨h₂.kept _ _ _ hself, fun b hb => h₂.kept _ _ _ (htail b hb)⟩

/-- A forwarded task that is acknowledged is kept by the target and by the owners in
the target's view but the first. -/
theorem forward_task_stores (htarget : Reach cfg s.view n m)
    (hreach : ∀ b ∈ (cfg.partitioner.get_owners (s.view m) p).tail, Reach cfg s.view m b) {u : Unit}
    (h : RunsBeside cfg net (forward_task cfg n m p id task) s (.ok u) s') :
    (s'.task m p id).isSome ∧ ∀ b ∈ (cfg.partitioner.get_owners (s.view m) p).tail, (s'.task b p id).isSome := by
  obtain ⟨o, s₁, hmember, hrest⟩ := runs_bind.1 h
  obtain ⟨node, hnode, hhost⟩ := htarget
  have h₁ : Grown s s₁ := RunsBeside.grown hmember
  rw [get_member_returns hmember, hnode] at hrest
  obtain ⟨r, s₂, hrequest, hend⟩ := runs_bind.1 hrest
  cases r with
  | error e => cases (runs_pure.1 hend).1
  | ok response =>
    obtain ⟨s₃, s₄, h₃, hserve, h₄⟩ := request_returns hhost hrequest
    have hview₃ : s₃.view = s.view := h₃.view.trans h₁.view
    have hend' : Grown s₂ s' := RunsBeside.grown hend
    dsimp only at hend
    split at hend
    · rename_i hok
      rw [← hview₃] at hreach ⊢
      obtain ⟨hself, htail⟩ := handle_internal_submit_task_stores hreach hok hserve
      exact ⟨hend'.kept _ _ _ (h₄.kept _ _ _ hself), fun b hb => hend'.kept _ _ _ (h₄.kept _ _ _ (htail b hb))⟩
    · cases (runs_pure.1 hend).1

theorem handle_internal_submit_task_own {req : ForwardTaskRequest} {response : StatusCode × SubmitTaskResponse}
    (h : RunsBeside cfg net (handle_internal_submit_task cfg m req) s response s') :
    (s'.task m req.partition req.task_id).isSome := by
  obtain ⟨entry, s₁, -, hrest⟩ := runs_bind.1 h
  obtain ⟨r, s₂, hstore, hend⟩ := runs_bind.1 hrest
  have hgrown : Grown s₂ s' := RunsBeside.grown hend
  exact hgrown.kept _ _ _ (store_as_primary_own hstore)

/-- Whatever the views, an accepted task is kept by some node. -/
theorem submit_stores (h : RunsBeside cfg net (submit cfg n task) s (.ok id) s') :
    ∃ m, (s'.task m (partition_of cfg id) id).isSome := by
  obtain ⟨task_id, s₁, -, hrest⟩ := runs_bind.1 h
  obtain ⟨owners, s₂, -, hrest₂⟩ := runs_bind.1 hrest
  cases owners with
  | nil =>
    obtain ⟨entry, s₃, -, hrest₃⟩ := runs_bind.1 hrest₂
    obtain ⟨_, s₄, hstore, hend⟩ := runs_bind.1 hrest₃
    obtain ⟨hid, h₄⟩ := runs_pure.1 hend
    cases hid
    exact ⟨n, h₄.kept _ _ _ (store_local_returns hstore)⟩
  | cons primary backups =>
    dsimp only at hrest₂
    split at hrest₂
    · obtain ⟨entry, s₃, -, hrest₃⟩ := runs_bind.1 hrest₂
      obtain ⟨r, s₄, hstore, hend⟩ := runs_bind.1 hrest₃
      cases r with
      | error e => cases (runs_pure.1 hend).1
      | ok u =>
        obtain ⟨hid, h₄⟩ := runs_pure.1 hend
        cases hid
        exact ⟨n, h₄.kept _ _ _ (store_as_primary_own hstore)⟩
    · obtain ⟨r, s₃, hforward, hend⟩ := runs_bind.1 hrest₂
      cases r with
      | error e => cases (runs_pure.1 hend).1
      | ok u =>
        obtain ⟨hid, h₃⟩ := runs_pure.1 hend
        cases hid
        obtain ⟨o, s₄, -, hrest₄⟩ := runs_bind.1 hforward
        cases o with
        | none => cases (runs_pure.1 hrest₄).1
        | some node =>
          obtain ⟨r, s₅, hrequest, hend₅⟩ := runs_bind.1 hrest₄
          have h₅ : Grown s₅ s₃ := RunsBeside.grown hend₅
          cases r with
          | error e => cases (runs_pure.1 hend₅).1
          | ok response =>
            obtain ⟨m, s₆, s₇, -, -, hserve, h₇⟩ := request_served hrequest
            have hown := handle_internal_submit_task_own hserve
            exact ⟨m, h₃.kept _ _ _ (h₅.kept _ _ _ (h₇.kept _ _ _ hown))⟩

variable {ring : NodeRing NodeId}

/-- Every owner of the partition keeps an entry for the task. -/
def Everywhere (cfg : MapConfig) (ring : NodeRing NodeId) (s : QueueCluster) (p : Nat) (id : TaskId) : Prop :=
  ∀ o ∈ cfg.owners ring p, (s.task o p id).isSome

theorem Everywhere.grown (h : Everywhere cfg ring s p id) (hgrown : Grown s s') : Everywhere cfg ring s' p id :=
  fun o ho => hgrown.kept _ _ _ (h o ho)

/-- The first owner and the others are all owners. -/
theorem everywhere_of_stores (hprimary : (cfg.owners ring p).head? = some n) (hself : (s.task n p id).isSome)
    (htail : ∀ b ∈ (cfg.owners ring p).tail, (s.task b p id).isSome) : Everywhere cfg ring s p id := by
  intro o ho
  cases hlist : cfg.owners ring p with
  | nil => simp [hlist] at ho
  | cons primary backups =>
    rw [hlist] at ho hprimary htail
    rcases List.mem_cons.1 ho with rfl | ho
    · rw [Option.some.inj hprimary]
      exact hself
    · exact htail o ho

theorem reach_tail (hview : Agreed cfg ring s.view) (hn : n ∈ ring.ids) :
    ∀ b ∈ (cfg.partitioner.get_owners (s.view n) p).tail, Reach cfg s.view n b := by
  rw [hview.get_owners hn]
  exact fun b hb => hview.reach n hn b (MapConfig.mem_of_mem_owners (List.mem_of_mem_tail hb))

theorem store_as_primary_returns (hview : Agreed cfg ring s.view) (hn : n ∈ ring.ids)
    (hprimary : (cfg.owners ring p).head? = some n) {u : Unit}
    (h : RunsBeside cfg net (store_as_primary cfg n p id entry) s (.ok u) s') : Everywhere cfg ring s' p id := by
  obtain ⟨hself, htail⟩ := store_as_primary_stores (reach_tail hview hn) h
  rw [hview.get_owners hn] at htail
  exact everywhere_of_stores hprimary hself htail

theorem forward_task_returns (hview : Agreed cfg ring s.view) (hn : n ∈ ring.ids)
    (hprimary : (cfg.owners ring p).head? = some m) {u : Unit}
    (h : RunsBeside cfg net (forward_task cfg n m p id task) s (.ok u) s') : Everywhere cfg ring s' p id := by
  have hm : m ∈ ring.ids := MapConfig.mem_of_mem_owners (List.mem_of_mem_head? hprimary)
  obtain ⟨hself, htail⟩ := forward_task_stores (hview.reach n hn m hm) (reach_tail hview hm) h
  rw [hview.get_owners hm] at htail
  exact everywhere_of_stores hprimary hself htail

/-- A submission that was accepted has stored the task itself, or has forwarded it to
the first owner in its view. -/
theorem submit_cases (hn : n ∈ ring.ids) (hget : ∀ p, cfg.partitioner.get_owners (s.view n) p = cfg.owners ring p)
    (h : RunsBeside cfg net (submit cfg n task) s (.ok id) s') :
    ∃ primary s₁ s₂, (cfg.owners ring (partition_of cfg id)).head? = some primary ∧ Grown s s₁ ∧ Grown s₂ s' ∧
      ((primary = n ∧ ∃ entry, RunsBeside cfg net (store_as_primary cfg n (partition_of cfg id) id entry) s₁ (.ok ()) s₂) ∨
        RunsBeside cfg net (forward_task cfg n primary (partition_of cfg id) id task) s₁ (.ok ()) s₂) := by
  obtain ⟨task_id, s₁, hid, hrest⟩ := runs_bind.1 h
  obtain ⟨owners, s₂, howners, hrest₂⟩ := runs_bind.1 hrest
  have h₁ : Grown s s₁ := RunsBeside.grown hid
  have h₂ : Grown s s₂ := IsTrans.trans _ _ _ h₁ (RunsBeside.grown howners)
  have heq : owners = cfg.owners ring (partition_of cfg task_id) := by
    rw [get_owners_returns howners, h₁.view, hget]
  subst heq
  obtain ⟨primary, backups, hlist⟩ := cfg.owners_cons hn (partition_of cfg task_id)
  have hprimary : (cfg.owners ring (partition_of cfg task_id)).head? = some primary := by rw [hlist]; rfl
  rw [hlist] at hrest₂
  dsimp only at hrest₂
  split at hrest₂
  · rename_i hself
    obtain ⟨entry, s₃, hentry, hrest₃⟩ := runs_bind.1 hrest₂
    obtain ⟨r, s₄, hstore, hend⟩ := runs_bind.1 hrest₃
    have h₃ : Grown s s₃ := IsTrans.trans _ _ _ h₂ (RunsBeside.grown hentry)
    cases r with
    | error e => cases (runs_pure.1 hend).1
    | ok u =>
      obtain ⟨hid, h₄⟩ := runs_pure.1 hend
      cases hid
      exact ⟨primary, s₃, s₄, hprimary, h₃, h₄, .inl ⟨hself, entry, hstore⟩⟩
  · obtain ⟨r, s₃, hforward, hend⟩ := runs_bind.1 hrest₂
    cases r with
    | error e => cases (runs_pure.1 hend).1
    | ok u =>
      obtain ⟨hid, h₃⟩ := runs_pure.1 hend
      cases hid
      exact ⟨primary, s₂, s₃, hprimary, h₂, h₃, .inr hforward⟩

theorem submit_returns (hview : Agreed cfg ring s.view) (hn : n ∈ ring.ids)
    (h : RunsBeside cfg net (submit cfg n task) s (.ok id) s') : Everywhere cfg ring s' (partition_of cfg id) id := by
  obtain ⟨primary, s₁, s₂, hprimary, h₁, h₂, hbranch⟩ := submit_cases hn (fun _ => hview.get_owners hn _) h
  have hview₁ : Agreed cfg ring s₁.view := by rwa [h₁.view]
  rcases hbranch with ⟨rfl, entry, hstore⟩ | hforward
  · exact (store_as_primary_returns hview₁ hn hprimary hstore).grown h₂
  · exact (forward_task_returns hview₁ hn hprimary hforward).grown h₂

end Submission

/-! ## A submission alone -/

/-- A submission runs to its end while the other processes wait. -/
theorem steps_of_submit {l : QueuePool} {r : Result TaskId} (h : Runs (QueueSem cfg net) Eq (submit cfg n task) s r s') :
    Steps cfg net (s, l) (s', (.submit n task, .done (some r)) :: l) := by
  have hawaited : Runs (QueueSem cfg net) Eq (awaited cfg n task) s (some r) s' :=
    runs_bind.2 ⟨r, s', h, runs_pure.2 ⟨rfl, rfl⟩⟩
  have hrun : Steps cfg net (s, (.submit n task, awaited cfg n task) :: l) (s', (.submit n task, .done (some r)) :: l) :=
    Pool.steps_of_runs (S := fun _ : Job => QueueSem cfg net) hawaited [] l
  exact (Relation.ReflTransGen.single (.spawn _ _ (.submit n task))).trans hrun

theorem reachable_of_submit {r : Result TaskId} (hs : Reachable cfg net s)
    (h : Runs (QueueSem cfg net) Eq (submit cfg n task) s r s') : Reachable cfg net s' := by
  obtain ⟨view, clock, l, hsteps⟩ := hs
  exact ⟨view, clock, _, hsteps.trans (steps_of_submit h)⟩

/-- The submission knows what its id is for, and an id is for one task. -/
theorem task_of_answer {l₁ l₂ : QueuePool} (hc : QueueTracked cfg (s, l₁ ++ (.submit n task, .done (some (.ok id))) :: l₂))
    (hentry : s.task m p id = some entry) : entry.task = task := by
  obtain ⟨g, gs, hsound, hobeys, -, -⟩ := hc.process
  have hknows : g.knows id task := hobeys id rfl
  exact hsound.named id entry.task task (.inl ⟨m, _, entry, hentry, rfl⟩) (.inr (.inr ⟨g, Multiset.mem_cons_self g gs, hknows⟩))

/-- An accepted task is kept by some node. -/
theorem entry_of_submit (hs : Reachable cfg net s) (h : Runs (QueueSem cfg net) Eq (submit cfg n task) s (.ok id) s') :
    ∃ m entry, s'.task m (partition_of cfg id) id = some entry ∧ entry.task = task := by
  obtain ⟨m, hm⟩ := submit_stores h.alone
  obtain ⟨entry, hentry⟩ := Option.isSome_iff_exists.1 hm
  refine ⟨m, entry, hentry, ?_⟩
  obtain ⟨view, clock, l, hsteps⟩ := hs
  have hc : QueueTracked cfg (s', [] ++ (.submit n task, .done (some (.ok id))) :: l) :=
    tracked_of_steps (hsteps.trans (steps_of_submit h)) (tracked_empty view clock)
  exact task_of_answer hc hentry

/-! ## Runs with stable views -/

/-- Runs in which the views never change. -/
abbrev StableSteps (cfg : MapConfig) (net : Network) :
    QueueCluster × QueuePool → QueueCluster × QueuePool → Prop :=
  StepsWithin cfg net fun _ => False

variable {ring : NodeRing NodeId} {c c' : QueueCluster × QueuePool}

theorem around_grown {l : QueuePool} (h : Around cfg (fun _ => False) s l s') : Grown s s' := by
  cases h with
  | membership _ hnever => exact hnever.elim
  | beside hbeside => exact beside_grown hbeside

theorem stable_grown (h : StableSteps cfg net c c') : Grown c.1 c'.1 := by
  induction h with
  | refl => exact refl _
  | tail _ hstep ih =>
    refine IsTrans.trans _ _ _ ih ?_
    cases hstep with
    | run job e k x hact => exact act_grown hact
    | retire => exact refl _
    | spawn => exact refl _
    | env s' haround => exact around_grown haround

section Example

/-- Requests and answers of the cluster `pair` may get lost; here none does. -/
def QueueInt_pair : (e : QueueAct) → QueueCluster → QueueI.Ans e × QueueCluster :=
  QueueInt (answered pair_cfg) fun _ => none

theorem pair_sem (e : QueueAct) (s : QueueCluster) :
    QueueSem pair_cfg .lossy e s (QueueInt_pair e s).1 (QueueInt_pair e s).2 :=
  QueueInt_sem (allows_answered .lossy) e s

def index_task : Task := .Execute "index_document" .Null

def pair_idle : QueueCluster := .empty (demo_view pair) fun _ => 0

end Example

end Executor
