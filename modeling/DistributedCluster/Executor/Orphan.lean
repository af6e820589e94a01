import DistributedCluster.Executor.Lifecycle
/-!
# Renewals without a worker

The loop that renews a task's lease ends when the worker stops it or when it
finds the task not running. A worker whose handler panics stops nothing, and
nobody else can complete the task. So the loop goes on for ever.
-/

namespace Executor

open Async

variable {cfg : MapConfig} {net : Network} {φ : (NodeId → MembershipService) → Prop} {c c' : QueueCluster × QueuePool}
  {s : QueueCluster} {n : NodeId} {id : TaskId}

/-- What is left of `execute_with_lease` once the renewals have started. -/
def executing (cfg : MapConfig) (n : NodeId) (task_id : TaskId) (task : Task) : QueueM (Option (Result TaskId)) :=
  unattended do
    match ← execute_task n task with
    | none => pure ()
    | some result => do
      abort_renewal n task_id
      let _ ← complete_task cfg n task_id result
      pure ()

theorem execute_with_lease_eq (cfg : MapConfig) (n : NodeId) (task_id : TaskId) (task : Task) :
    unattended (execute_with_lease cfg n task_id task) =
      .call (.spawn_renewal n task_id) fun _ => executing cfg n task_id task := rfl

/-- A worker of node `n` executes the task, the handler panics, and the worker is gone. -/
def Panics (cfg : MapConfig) (n : NodeId) (id : TaskId) (c c' : QueueCluster × QueuePool) : Prop :=
  ∃ job task l₁ l₂, c.2 = l₁ ++ (job, executing cfg n id task) :: l₂ ∧ c' = (c.1, l₁ ++ (job, .done none) :: l₂)

theorem Panics.step (h : Panics cfg n id c c') :
    Pool.Step (fun _ => QueueSem cfg net) (Started cfg) (Around cfg φ) c c' := by
  obtain ⟨job, task, l₁, l₂, hl, rfl⟩ := h
  obtain ⟨s, l⟩ := c
  obtain rfl : l = l₁ ++ (job, executing cfg n id task) :: l₂ := hl
  have hact : QueueSem cfg net (.execute n task) s none s := rfl
  exact Pool.Step.run (S := fun _ => QueueSem cfg net) job (QueueAct.execute n task) _ none hact

/-- When the lease of node `n`'s copy of the task expires. -/
def lease_expires (cfg : MapConfig) (n : NodeId) (id : TaskId) (s : QueueCluster) : Option Nat :=
  (s.task n (partition_of cfg id) id).bind (·.lease_expires)

/-- The step puts off when the task's lease expires. -/
def Extends (cfg : MapConfig) (n : NodeId) (id : TaskId) (c c' : QueueCluster × QueuePool) : Prop :=
  ∃ lease lease', lease_expires cfg n id c.1 = some lease ∧ lease_expires cfg n id c'.1 = some lease' ∧ lease < lease'

/-- No step after `c` extends the task's lease at node `n`. -/
def LeftAlone (cfg : MapConfig) (net : Network) (φ : (NodeId → MembershipService) → Prop) (n : NodeId) (id : TaskId)
    (c : QueueCluster × QueuePool) : Prop :=
  ∀ c₁ c₂, StepsWithin cfg net φ c c₁ → Pool.Step (fun _ => QueueSem cfg net) (Started cfg) (Around cfg φ) c₁ c₂ →
    ¬ Extends cfg n id c₁ c₂

/-- A step after which the task's lease at node `n` has not expired. -/
def LeasedStep (cfg : MapConfig) (net : Network) (φ : (NodeId → MembershipService) → Prop) (n : NodeId) (id : TaskId)
    (c c' : QueueCluster × QueuePool) : Prop :=
  Pool.Step (fun _ => QueueSem cfg net) (Started cfg) (Around cfg φ) c c' ∧
    ∃ lease, lease_expires cfg n id c'.1 = some lease ∧ ¬ c'.1.clock n > lease

/-! ## The task of a worker that is gone -/

/-- No process holds the task, but nobody else can take it: its ghost is left. -/
def Orphaned (cfg : MapConfig) (n : NodeId) (id : TaskId) (c : QueueCluster × QueuePool) : Prop :=
  ∃ g : Ghost, g.role = .renewing n id ∧ Pool.Tracked (discipline cfg) (fun s gs => Sound cfg s (g ::ₘ gs)) Answered c

theorem Panics.orphaned (hc : QueueTracked cfg c) (h : Panics cfg n id c c') : Orphaned cfg n id c' := by
  obtain ⟨job, task, l₁, l₂, hl, rfl⟩ := h
  obtain ⟨s, l⟩ := c
  obtain rfl : l = l₁ ++ (job, executing cfg n id task) :: l₂ := hl
  obtain ⟨g, gs, hsound, hobeys, hgoes, -⟩ := hc.process
  -- had the handler returned, the process would have gone on to stop the renewals
  have hreturns := hobeys.2 (some (.ok ())) trivial
  have hrole : g.role = .renewing n id := hreturns.1
  have hjob : job.is_worker := (hreturns.2 () trivial).1.1
  have hstarted : Sound cfg s ((Ghost.start .server).learn (fun _ _ => False) ::ₘ g ::ₘ gs) :=
    sound_start hsound rfl fun _ _ hfact => hfact.elim
  rw [Multiset.cons_swap] at hstarted
  refine ⟨g, hrole, hgoes s _ _ hstarted ?_⟩
  cases job with
  | worker m => exact trivial
  | _ => exact hjob.elim

/-- No step brings the worker back, stops the renewals or ends the task. -/
theorem Orphaned.steps (h : Orphaned cfg n id c) (hsteps : StepsWithin cfg net φ c c') : Orphaned cfg n id c' := by
  obtain ⟨g, hrole, hc⟩ := h
  refine ⟨g, hrole, Pool.tracked_steps (fun job s g' gs e x s' hinv hmay hact => ?_) (fun s g' gs hinv => ?_)
    (fun s l job p hl hstart => ?_) (fun _ _ _ _ hinv haround => ?_) hsteps hc⟩
  · rw [Multiset.cons_swap] at hinv ⊢
    exact sound_act hinv hmay hact
  · rw [Multiset.cons_swap] at hinv
    exact sound_retire hinv
  · refine tracked_spawn hl hstart (fun _ hinv => hinv.sent) fun gs role facts hfree hfacts hinv => ?_
    rw [Multiset.cons_swap]
    exact sound_start hinv hfree hfacts
  · exact sound_around hinv haround

theorem Orphaned.running (h : Orphaned cfg n id c) : id ∈ (c.1.node n).renewals ∧
    ∃ entry lease, c.1.task n (partition_of cfg id) id = some entry ∧ entry.status = .Running ∧
      entry.lease_expires = some lease := by
  obtain ⟨g, hrole, hc⟩ := h
  obtain ⟨gs, hsound⟩ := hc.inv
  have hg := Multiset.mem_cons_self g gs
  obtain ⟨entry, hentry, hrun⟩ := hsound.running g hg n id (Ghost.held_of_renewing hrole)
  have hwell := (hsound.stored n _ id entry hentry).2
  unfold TaskEntry.WellFormed at hwell
  rw [hrun] at hwell
  obtain ⟨lease, hlease⟩ := Option.isSome_iff_exists.1 hwell.2
  exact ⟨hsound.renewed g hg n id hrole, entry, lease, hentry, hrun, hlease⟩

/-- A round of the renewal loop puts the expiry 30 s ahead. -/
theorem Orphaned.round (h : Orphaned cfg n id c) (net : Network) (φ : (NodeId → MembershipService) → Prop) :
    Pool.Step (fun _ => QueueSem cfg net) (Started cfg) (Around cfg φ) c (renewal_round cfg c.1 n id, c.2) ∧
      lease_expires cfg n id (renewal_round cfg c.1 n id) = some (c.1.clock n + 30000) ∧
      (renewal_round cfg c.1 n id).clock = c.1.clock := by
  obtain ⟨hmem, entry, lease, hentry, hrun, -⟩ := h.running
  refine ⟨.env _ (.beside (.renewal hmem)), ?_, ?_⟩
  · rw [renewal_round_running hentry hrun]
    unfold lease_expires
    rw [QueueCluster.task_put_task, if_pos ⟨rfl, rfl, rfl⟩]
    rfl
  · rw [renewal_round_running hentry hrun]
    rfl

theorem step_tick (c : QueueCluster × QueuePool) (clock : NodeId → Nat) :
    Pool.Step (fun _ => QueueSem cfg net) (Started cfg) (Around cfg φ) c ({ c.1 with clock }, c.2) :=
  .env _ (.beside (.tick clock))

/-- Once the clock has passed the expiry, the next round extends the lease. -/
theorem Orphaned.not_left (h : Orphaned cfg n id c) : ¬ LeftAlone cfg net φ n id c := by
  intro hleft
  obtain ⟨-, entry, lease, hentry, -, hlease⟩ := h.running
  have htick : Pool.Step (fun _ => QueueSem cfg net) (Started cfg) (Around cfg φ) c
      ({ c.1 with clock := fun _ => lease }, c.2) := step_tick c _
  have hlater := h.steps (.single htick)
  obtain ⟨hround, hextended, -⟩ := hlater.round net φ
  refine hleft _ _ (.single htick) hround ⟨lease, lease + 30000, ?_, hextended, by omega⟩
  show (c.1.task n (partition_of cfg id) id).bind (·.lease_expires) = some lease
  rw [hentry]
  exact hlease

theorem LeasedStep.steps {c c' : QueueCluster × QueuePool} (h : Relation.ReflTransGen (LeasedStep cfg net φ n id) c c') :
    StepsWithin cfg net φ c c' :=
  Relation.ReflTransGen.mono (fun _ _ hstep => hstep.1) _ _ h

theorem Orphaned.round_leased (h : Orphaned cfg n id c) :
    LeasedStep cfg net φ n id c (renewal_round cfg c.1 n id, c.2) := by
  obtain ⟨hround, hlease, hclock⟩ := h.round net φ
  refine ⟨hround, _, hlease, ?_⟩
  rw [hclock]
  omega

/-- With a round every 10 s the lease never expires. -/
theorem Orphaned.leased (h : Orphaned cfg n id c) (net : Network) (φ : (NodeId → MembershipService) → Prop) (rounds : Nat) :
    ∃ c', Relation.ReflTransGen (LeasedStep cfg net φ n id) c c' ∧ c.1.clock n + 10000 * rounds ≤ c'.1.clock n ∧
      lease_expires cfg n id c'.1 = some (c'.1.clock n + 30000) := by
  induction rounds with
  | zero =>
    obtain ⟨-, hlease, hclock⟩ := h.round net φ
    refine ⟨_, .single h.round_leased, ?_, ?_⟩
    · rw [hclock]
      omega
    · rw [hclock]
      exact hlease
  | succ rounds ih =>
    obtain ⟨c₁, hsteps, hlater, hlease⟩ := ih
    have htick : LeasedStep cfg net φ n id c₁ ({ c₁.1 with clock := fun m => c₁.1.clock m + 10000 }, c₁.2) :=
      ⟨step_tick c₁ _, c₁.1.clock n + 30000, hlease, by simp⟩
    have hticked := hsteps.tail htick
    have horphaned := h.steps (LeasedStep.steps hticked)
    obtain ⟨-, hextended, hclock⟩ := horphaned.round net φ
    refine ⟨_, hticked.tail horphaned.round_leased, ?_, ?_⟩
    · rw [hclock]
      dsimp only
      omega
    · rw [hclock]
      exact hextended

/-- In every run, once a handler has panicked, the renewal loop of its task runs
for ever: from every later state on, a step extends the lease, and the lease
need never expire again. -/
theorem never_left_alone {view : NodeId → MembershipService} {clock : NodeId → Nat}
    (h : StepsWithin cfg net φ (.empty view clock, []) c) (hpanic : Panics cfg n id c c') :
    ∀ c₁, StepsWithin cfg net φ c' c₁ → ¬ LeftAlone cfg net φ n id c₁ ∧
      ∀ t, ∃ c₂, Relation.ReflTransGen (LeasedStep cfg net φ n id) c₁ c₂ ∧ t ≤ c₂.1.clock n := by
  intro c₁ hsteps
  have horphaned := (hpanic.orphaned (tracked_of_steps h (tracked_empty view clock))).steps hsteps
  refine ⟨horphaned.not_left, fun t => ?_⟩
  obtain ⟨c₂, hleased, hlater, -⟩ := horphaned.leased net φ t
  exact ⟨c₂, hleased, by omega⟩

section Example

/-- A worker claims the first task of its list and starts the renewals. -/
theorem steps_executing {job : Job} {entry : TaskEntry} {tasks : List (TaskId × TaskEntry)} {s₁ : QueueCluster}
    (hlist : Runs (QueueSem cfg net) Eq (my_pending_tasks cfg n) s ((id, entry) :: tasks) s₁)
    (hclaim : (s₁.claim n (partition_of cfg id) id).1 = true) :
    StepsWithin cfg net φ (s, [(job, unattended (worker_loop cfg n))])
      ((s₁.claim n (partition_of cfg id) id).2.spawn_renewal n id, [(job, executing cfg n id entry.task)]) := by
  let s₂ := (s₁.claim n (partition_of cfg id) id).2
  have hlisted : StepsWithin cfg net φ (s, [(job, unattended (worker_loop cfg n))])
      (s₁, [(job, unattended (claim_first cfg n ((id, entry) :: tasks)))]) := steps_listed hlist
  have hclaims : Claims n id (s₁, [(job, unattended (claim_first cfg n ((id, entry) :: tasks)))])
      (s₂, [(job, unattended (execute_with_lease cfg n id entry.task))]) := claims_listed hclaim
  have hspawned : Pool.Step (fun _ => QueueSem cfg net) (Started cfg) (Around cfg φ)
      (s₂, [] ++ (job, .call (.spawn_renewal n id) fun _ => executing cfg n id entry.task) :: [])
      (s₂.spawn_renewal n id, [] ++ (job, executing cfg n id entry.task) :: []) :=
    Pool.Step.run (S := fun _ => QueueSem cfg net) job (QueueAct.spawn_renewal n id) _ () rfl
  rw [execute_with_lease_eq] at hclaims
  exact (hlisted.tail hclaims.step).tail hspawned

/-- The one task of the one node is claimed, and its handler panics. -/
theorem panicking : ∃ c c', StepsWithin solo_cfg .reliable φ (idle, []) c ∧ Panics solo_cfg node_a task_x c c' := by
  obtain ⟨entry, others, s₁, hlist, hclaim⟩ := runs_listed panics_sem submitted node_a task_x (by decide +kernel)
    (by decide +kernel)
  have hstarted : StepsWithin solo_cfg .reliable φ (idle, [])
      (submitted, [(.worker node_a, unattended (worker_loop solo_cfg node_a))]) :=
    steps_submitted.tail (.spawn (Job.worker node_a) _ (Started.worker node_a))
  exact ⟨_, _, hstarted.trans (steps_executing hlist hclaim), .worker node_a, entry.task, [], [], rfl, rfl⟩

theorem never_left_alone_solo : ∃ c c', Panics solo_cfg node_a task_x c c' ∧
    ¬ LeftAlone solo_cfg .reliable (fun _ => True) node_a task_x c' := by
  obtain ⟨c, c', hsteps, hpanic⟩ := panicking
  exact ⟨c, c', hpanic, (never_left_alone hsteps hpanic c' .refl).1⟩

/-- The renewals go on after the worker is gone. -/
theorem renewed_without_worker :
    ¬ ∀ (cfg : MapConfig) (net : Network) (view : NodeId → MembershipService) (clock : NodeId → Nat)
      (c c' : QueueCluster × QueuePool) (n : NodeId) (id : TaskId),
      Steps cfg net (.empty view clock, []) c → Panics cfg n id c c' → LeftAlone cfg net (fun _ => True) n id c' := by
  intro h
  obtain ⟨c, c', hsteps, hpanic⟩ := panicking
  have horphaned : Orphaned solo_cfg node_a task_x c' :=
    hpanic.orphaned (tracked_of_steps hsteps (tracked_empty (demo_view solo) fun _ => 0))
  exact horphaned.not_left (h solo_cfg .reliable _ _ c c' node_a task_x hsteps hpanic)

end Example

end Executor
