import DistributedCluster.Executor.Leases
/-!
# The life of a task

On every node an entry goes from pending to running to completed or failed, and
its lease and its assignment follow. A node claims a task at most once.
-/

namespace Executor

open Async

/-- At most one step of a task's life. -/
inductive TaskStatus.Moves : TaskStatus → TaskStatus → Prop
  | stays (status : TaskStatus) : Moves status status
  | claimed : Moves .Pending .Running
  | completed : Moves .Running .Completed
  | failed (error : String) : Moves .Running (.Failed error)

/-- A status and one that comes later, or the same. -/
abbrev TaskStatus.Leads : TaskStatus → TaskStatus → Prop := Relation.ReflTransGen TaskStatus.Moves

structure TaskEntry.InOrder (entry : TaskEntry) : Prop where
  pending : entry.status = .Pending ↔ entry.assigned_to = none
  unassigned : entry.assigned_to = none → entry.lease_expires = none
  running : entry.status = .Running → entry.assigned_to.isSome ∧ entry.lease_expires.isSome
  completed : entry.status = .Completed → entry.assigned_to.isSome ∧ entry.lease_expires = none
  failed : ∀ error, entry.status = .Failed error → entry.assigned_to.isSome ∧ entry.lease_expires = none

theorem TaskEntry.WellFormed.inOrder {entry : TaskEntry} (h : entry.WellFormed) : entry.InOrder := by
  obtain ⟨task, status, assigned_to, created_at, lease_expires⟩ := entry
  cases status with
  | Pending =>
    obtain ⟨rfl, rfl⟩ : assigned_to = none ∧ lease_expires = none := h
    constructor <;> simp
  | Running =>
    obtain ⟨hassigned, hlease⟩ : assigned_to.isSome ∧ lease_expires.isSome := h
    obtain ⟨m, rfl⟩ := Option.isSome_iff_exists.1 hassigned
    constructor <;> simp [hlease]
  | Completed =>
    obtain ⟨hassigned, rfl⟩ : assigned_to.isSome ∧ lease_expires = none := h
    obtain ⟨m, rfl⟩ := Option.isSome_iff_exists.1 hassigned
    constructor <;> simp
  | Failed error =>
    obtain ⟨hassigned, rfl⟩ : assigned_to.isSome ∧ lease_expires = none := h
    obtain ⟨m, rfl⟩ := Option.isSome_iff_exists.1 hassigned
    constructor <;> simp

theorem TaskStatus.Leads.pending {status status' : TaskStatus} (h : status.Leads status') (hp : status' = .Pending) :
    status = .Pending := by
  induction h with
  | refl => exact hp
  | tail _ hmove ih =>
    subst hp
    cases hmove
    exact ih rfl

variable {cfg : MapConfig} {net : Network} {φ : (NodeId → MembershipService) → Prop} {c c' : QueueCluster × QueuePool}
  {n : NodeId} {p : Nat} {id : TaskId} {entry : TaskEntry}

/-- One step of the run is at most one step of a task's life on any node. -/
theorem entry_moves (hc : QueueTracked cfg c)
    (hstep : Pool.Step (fun _ => QueueSem cfg net) (Started cfg) (Around cfg φ) c c') (hentry : c.1.task n p id = some entry) :
    ∃ entry', c'.1.task n p id = some entry' ∧ entry.status.Moves entry'.status := by
  cases hstep with
  | run job e k x hact =>
    obtain ⟨g, gs, hsound, hobeys, -, -⟩ := hc.process
    obtain ⟨entry', hentry', heffect⟩ := entry_effect hact hentry
    refine ⟨entry', hentry', ?_⟩
    cases heffect with
    | kept => exact .stays _
    | claimed _ hpending _ => exact hpending ▸ .claimed
    | @completed result he =>
      subst he
      have hmay : may cfg job g (.complete n p id result) := hobeys.1
      have hrun := hsound.completes hmay hentry
      cases result with
      | ok u => exact hrun ▸ .completed
      | error message => exact hrun ▸ .failed message
  | retire => exact ⟨entry, hentry, .stays _⟩
  | spawn => exact ⟨entry, hentry, .stays _⟩
  | env s' haround =>
    cases haround with
    | membership view _ => exact ⟨entry, hentry, .stays _⟩
    | beside hbeside =>
      cases hbeside with
      | tick clock => exact ⟨entry, hentry, .stays _⟩
      | @renewal m task_id _ =>
        rcases (renewal_round_entry cfg _ m task_id).2.2.2 n p id with hsame | ⟨old, lease, hold, -, hnew⟩
        · exact ⟨entry, hsame.trans hentry, .stays _⟩
        · rw [hentry] at hold
          cases hold
          exact ⟨_, hnew, .stays _⟩

theorem entry_leads (hc : QueueTracked cfg c) (hsteps : StepsWithin cfg net φ c c') (hentry : c.1.task n p id = some entry) :
    ∃ entry', c'.1.task n p id = some entry' ∧ entry.status.Leads entry'.status := by
  induction hsteps with
  | refl => exact ⟨entry, hentry, .refl⟩
  | tail hsteps hstep ih =>
    obtain ⟨entry₁, hentry₁, hleads⟩ := ih
    obtain ⟨entry₂, hentry₂, hmoves⟩ := entry_moves (tracked_of_steps hsteps hc) hstep hentry₁
    exact ⟨entry₂, hentry₂, hleads.tail hmoves⟩

/-- The step is a claim of the task at node `n`, and it succeeds. -/
def Claims (n : NodeId) (id : TaskId) (c c' : QueueCluster × QueuePool) : Prop :=
  ∃ job p, ∃ k : Bool → QueueM (Option (Result TaskId)), ∃ l₁ l₂ s', c.2 = l₁ ++ (job, .call (.claim n p id) k) :: l₂ ∧
    (true, s') = c.1.claim n p id ∧ c' = (s', l₁ ++ (job, k true) :: l₂)

theorem Claims.step (h : Claims n id c c') :
    Pool.Step (fun _ => QueueSem cfg net) (Started cfg) (Around cfg φ) c c' := by
  obtain ⟨job, p, k, l₁, l₂, s', hl, hclaim, rfl⟩ := h
  obtain ⟨s, l⟩ := c
  obtain rfl : l = l₁ ++ (job, .call (QueueAct.claim n p id) k) :: l₂ := hl
  have hact : QueueSem cfg net (.claim n p id) s true s' := hclaim
  exact Pool.Step.run (S := fun _ => QueueSem cfg net) job (QueueAct.claim n p id) k true hact

/-- A successful claim finds the task pending and leaves it running. -/
theorem Claims.pending (h : Claims n id c c') : ∃ p entry entry', c.1.task n p id = some entry ∧ entry.status = .Pending ∧
    c'.1.task n p id = some entry' ∧ entry'.status = .Running := by
  obtain ⟨job, p, k, l₁, l₂, s', -, hclaim, rfl⟩ := h
  rcases QueueCluster.claim_cases c.1 n p id with hsame | ⟨entry, hentry, hpending, hput⟩
  · rw [hsame] at hclaim
    cases hclaim
  · rw [hput] at hclaim
    obtain rfl := congrArg Prod.snd hclaim
    exact ⟨p, entry, _, hentry, hpending, (QueueCluster.task_put_task _).trans (if_pos ⟨rfl, rfl, rfl⟩), rfl⟩

/-- A worker lists its tasks while the others wait. -/
theorem steps_listed {spawn : QueueCluster → QueuePool → Job → QueueM (Option (Result TaskId)) → Prop}
    {env : QueueCluster → QueuePool → QueueCluster → Prop} {s s₁ : QueueCluster} {job : Job} {tasks : List (TaskId × TaskEntry)}
    (hlist : Runs (QueueSem cfg net) Eq (my_pending_tasks cfg n) s tasks s₁) :
    Pool.Steps (fun _ => QueueSem cfg net) spawn env (s, [(job, unattended (worker_loop cfg n))])
      (s₁, [(job, unattended (claim_first cfg n tasks))]) := by
  have hloop : unattended (worker_loop cfg n) =
      (my_pending_tasks cfg n).bind fun tasks => unattended (claim_first cfg n tasks) := Async.bind_assoc _ _ _
  rw [hloop]
  exact Pool.steps_bind (S := fun _ : Job => QueueSem cfg net) hlist [] []

/-- Then it claims the first. -/
theorem claims_listed {s : QueueCluster} {job : Job} {tasks : List (TaskId × TaskEntry)}
    (hclaim : (s.claim n (partition_of cfg id) id).1 = true) :
    Claims n id (s, [(job, unattended (claim_first cfg n ((id, entry) :: tasks)))])
      ((s.claim n (partition_of cfg id) id).2, [(job, unattended (execute_with_lease cfg n id entry.task))]) :=
  ⟨job, partition_of cfg id, _, [], [], _, rfl, Prod.ext hclaim.symm rfl, rfl⟩

/-- One way to list the tasks puts this one first, and it can be claimed. -/
theorem runs_listed {int : (e : QueueAct) → QueueCluster → QueueI.Ans e × QueueCluster}
    (hint : ∀ e s, QueueSem cfg net e s (int e s).1 (int e s).2) (s : QueueCluster) (n : NodeId) (id : TaskId)
    (hfirst : (exec int (my_pending_tasks cfg n) s).1.head?.map Prod.fst = some id)
    (hclaim : ((exec int (my_pending_tasks cfg n) s).2.claim n (partition_of cfg id) id).1 = true) :
    ∃ entry tasks s₁, Runs (QueueSem cfg net) Eq (my_pending_tasks cfg n) s ((id, entry) :: tasks) s₁ ∧
      (s₁.claim n (partition_of cfg id) id).1 = true := by
  have hlist : Runs (QueueSem cfg net) Eq (my_pending_tasks cfg n) s (exec int (my_pending_tasks cfg n) s).1
      (exec int (my_pending_tasks cfg n) s).2 := exec_runs hint _ s
  generalize exec int (my_pending_tasks cfg n) s = listed at hlist hfirst hclaim
  obtain ⟨tasks, s₁⟩ := listed
  cases tasks with
  | nil => cases hfirst
  | cons first tasks =>
    obtain ⟨id', entry⟩ := first
    obtain rfl : id' = id := Option.some.inj hfirst
    exact ⟨entry, tasks, s₁, hlist, hclaim⟩

/-- Once a node has claimed a task, its copy is never pending again. -/
theorem claimed_once (hc : QueueTracked cfg c) {c₁ c₂ c₃ : QueueCluster × QueuePool} (h : Claims n id c c₁)
    (hsteps : StepsWithin cfg net φ c₁ c₂) : ¬ Claims n id c₂ c₃ := by
  intro h'
  have hone : StepsWithin cfg net φ c c₁ := .single h.step
  have hc₁ := tracked_of_steps hone hc
  obtain ⟨gs, hsound⟩ := (tracked_of_steps hsteps hc₁).inv
  obtain ⟨gs₁, hsound₁⟩ := hc₁.inv
  obtain ⟨p, -, entry, -, -, hentry, hrun⟩ := h.pending
  obtain ⟨p', entry', -, hentry', hpending, -, -⟩ := h'.pending
  -- both claims are of the one copy of the node
  obtain rfl : p = p' := (hsound₁.stored _ _ _ _ hentry).1.trans (hsound.stored _ _ _ _ hentry').1.symm
  obtain ⟨entry'', hentry'', hleads⟩ := entry_leads hc₁ hsteps hentry
  rw [hentry'] at hentry''
  cases hentry''
  rw [hleads.pending hpending] at hrun
  cases hrun

/-- In every run from an empty queue, every entry is in order, its status only
moves forward, and no node claims a task twice. -/
theorem lifecycle {view : NodeId → MembershipService} {clock : NodeId → Nat}
    (h : Steps cfg net (.empty view clock, []) c) :
    (∀ n p id entry, c.1.task n p id = some entry → entry.InOrder) ∧
    (∀ c', Steps cfg net c c' → ∀ n p id entry, c.1.task n p id = some entry →
      ∃ entry', c'.1.task n p id = some entry' ∧ entry.status.Leads entry'.status) ∧
    ∀ n id c₁ c₂ c₃, Claims n id c c₁ → Steps cfg net c₁ c₂ → ¬ Claims n id c₂ c₃ := by
  have hc := tracked_of_steps h (tracked_empty view clock)
  obtain ⟨gs, hsound⟩ := hc.inv
  refine ⟨fun n p id entry hentry => (hsound.stored n p id entry hentry).2.inOrder,
    fun c' hsteps n p id entry hentry => entry_leads hc hsteps hentry,
    fun n id c₁ c₂ c₃ hclaim hsteps => claimed_once hc hclaim hsteps⟩

section Example

theorem lifecycle_crashed : ∃ entry, crashed.task node_a (partition_of solo_cfg task_x) task_x = some entry ∧ entry.InOrder := by
  have hkept : (crashed.task node_a (partition_of solo_cfg task_x) task_x).isSome = true := by decide +kernel
  obtain ⟨entry, hentry⟩ := Option.isSome_iff_exists.1 hkept
  have hordered : ∀ s : QueueCluster, Steps solo_cfg .reliable (idle, []) (s, []) → ∀ n p id entry, s.task n p id = some entry →
      entry.InOrder := fun s hsteps => (lifecycle (c := (s, [])) hsteps).1
  exact ⟨entry, hentry, hordered crashed steps_crashed node_a _ task_x entry hentry⟩

end Example

end Executor
