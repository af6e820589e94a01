import DistributedCluster.Executor.Discipline
import DistributedCluster.Storage.Agreement
/-!
# Leases

A task whose lease has expired is listed for the workers again, but a claim
takes pending tasks only. So exactly the pending tasks of the list can be
claimed, and a task whose worker is gone stays where it is.
-/

namespace Executor

open Async

variable {cfg : MapConfig} {net : Network} {s s' : QueueCluster} {n : NodeId} {task_id : TaskId} {entry : TaskEntry}

/-! ## What is listed -/

/-- Pending, or running with a lease that has expired at `now`. -/
def Available (now : Nat) (entry : TaskEntry) : Prop :=
  entry.status = .Pending ∨ entry.status = .Running ∧ ∃ lease, entry.lease_expires = some lease ∧ lease < now

theorem is_available_returns {b : Bool} (h : Runs (QueueSem cfg net) Eq (is_available n entry) s b s') :
    s' = s ∧ (b = true ↔ Available (s.clock n) entry) := by
  unfold is_available at h
  unfold Available
  split at h
  · rename_i hstatus
    obtain ⟨rfl, rfl⟩ := runs_pure.1 h
    simp [hstatus]
  · rename_i hstatus
    split at h
    · rename_i lease hlease
      obtain ⟨now, s₁, hnow, hrest⟩ := runs_bind.1 h
      obtain ⟨rfl, rfl⟩ := runs_perform.1 hnow
      obtain ⟨rfl, rfl⟩ := runs_pure.1 hrest
      simp [hstatus, hlease]
    · rename_i hlease
      obtain ⟨rfl, rfl⟩ := runs_pure.1 h
      simp [hstatus, hlease]
  · rename_i hstatus
    obtain ⟨rfl, rfl⟩ := runs_pure.1 h
    simp [hstatus]
  · rename_i hstatus
    obtain ⟨rfl, rfl⟩ := runs_pure.1 h
    simp [hstatus]

theorem available_tasks_returns {entries tasks : List (TaskId × TaskEntry)}
    (h : Runs (QueueSem cfg net) Eq (available_tasks n entries) s tasks s') :
    s' = s ∧ ∀ e, e ∈ tasks ↔ e ∈ entries ∧ Available (s.clock n) e.2 := by
  induction entries generalizing tasks s' with
  | nil =>
    obtain ⟨rfl, rfl⟩ := runs_pure.1 h
    simp
  | cons e entries ih =>
    obtain ⟨b, s₁, havailable, hrest⟩ := runs_bind.1 h
    obtain ⟨rfl, hb⟩ := is_available_returns havailable
    obtain ⟨others, s₂, hothers, hend⟩ := runs_bind.1 hrest
    obtain ⟨rfl, hmem⟩ := ih hothers
    obtain ⟨rfl, rfl⟩ := runs_pure.1 hend
    refine ⟨rfl, fun e' => ?_⟩
    by_cases he : e' = e
    · subst he
      cases b with
      | true => simp [hb.1 rfl]
      | false =>
        have hno : ¬ Available (s₂.clock n) e'.2 := fun h => by simpa using hb.2 h
        simp [hmem, hno]
    · cases b with
      | true => simp [he, hmem]
      | false => simp [he, hmem]

theorem pending_tasks_returns {partitions : List Nat} {tasks : List (TaskId × TaskEntry)}
    (h : Runs (QueueSem cfg net) Eq (pending_tasks n partitions) s tasks s') :
    s' = s ∧ ∀ e, e ∈ tasks ↔ ∃ p ∈ partitions, s.task n p e.1 = some e.2 ∧ Available (s.clock n) e.2 := by
  induction partitions generalizing tasks s' with
  | nil =>
    obtain ⟨rfl, rfl⟩ := runs_pure.1 h
    simp
  | cons p partitions ih =>
    obtain ⟨entries, s₁, hdump, hrest⟩ := runs_bind.1 h
    obtain ⟨rfl, rfl⟩ := runs_perform.1 hdump
    obtain ⟨found, s₂, hfound, hrest₂⟩ := runs_bind.1 hrest
    obtain ⟨rfl, hin⟩ := available_tasks_returns hfound
    obtain ⟨others, s₃, hothers, hend⟩ := runs_bind.1 hrest₂
    obtain ⟨rfl, hmem⟩ := ih hothers
    obtain ⟨rfl, rfl⟩ := runs_pure.1 hend
    refine ⟨rfl, fun e => ?_⟩
    rw [List.mem_append, hin, hmem, QueueCluster.mem_dump_partition, List.exists_mem_cons_iff]

/-- The local node is the primary of the partition. -/
def IsPrimary (cfg : MapConfig) (s : QueueCluster) (n : NodeId) (partition : Nat) : Prop :=
  partition < cfg.partitioner.num_partitions ∧
    (cfg.partitioner.get_owners (s.view n) partition).head? = some n

theorem my_pending_tasks_returns {tasks : List (TaskId × TaskEntry)}
    (h : Runs (QueueSem cfg net) Eq (my_pending_tasks cfg n) s tasks s') :
    s' = s ∧ ∀ e, e ∈ tasks ↔
      ∃ p, IsPrimary cfg s n p ∧ s.task n p e.1 = some e.2 ∧ Available (s.clock n) e.2 := by
  obtain ⟨partitions, s₁, hpartitions, hrest⟩ := runs_bind.1 h
  have hlook : ∀ p x s', Runs (QueueSem cfg net) Eq (do pure ((← get_owners cfg n p).head? == some n)) s x s' →
      x = ((cfg.partitioner.get_owners (s.view n) p).head? == some n) ∧ s' = s := by
    intro p x s' hrun
    obtain ⟨owners, s₂, howners, hend⟩ := runs_bind.1 hrun
    obtain ⟨view, s₃, hview, hget⟩ := runs_bind.1 howners
    obtain ⟨rfl, rfl⟩ := runs_perform.1 hview
    obtain ⟨rfl, rfl⟩ := runs_pure.1 hget
    obtain ⟨rfl, rfl⟩ := runs_pure.1 hend
    exact ⟨rfl, rfl⟩
  obtain ⟨rfl, rfl⟩ := runs_filterM hlook hpartitions
  obtain ⟨rfl, hmem⟩ := pending_tasks_returns hrest
  refine ⟨rfl, fun e => ?_⟩
  simp only [hmem, List.mem_filter, List.mem_range, beq_iff_eq, IsPrimary]

/-! ## What can be claimed -/

theorem try_claim_task_returns {r : Result Bool} :
    Runs (QueueSem cfg net) Eq (try_claim_task cfg n task_id) s r s' ↔
      r = .ok (s.claim n (partition_of cfg task_id) task_id).1 ∧ s' = (s.claim n (partition_of cfg task_id) task_id).2 := by
  constructor
  · intro h
    obtain ⟨claimed, s₁, hclaim, hend⟩ := runs_bind.1 h
    have hstep : (claimed, s₁) = s.claim n (partition_of cfg task_id) task_id := runs_perform.1 hclaim
    obtain ⟨rfl, rfl⟩ := runs_pure.1 hend
    rw [← hstep]
    exact ⟨rfl, rfl⟩
  · rintro ⟨rfl, rfl⟩
    exact runs_bind.2 ⟨_, _, runs_perform.2 rfl, runs_pure.2 ⟨rfl, rfl⟩⟩

/-- Node `n` runs the task, under a lease that ends after `now`. -/
def Leased (cfg : MapConfig) (n : NodeId) (task_id : TaskId) (now : Nat) (s : QueueCluster) : Prop :=
  ∃ entry lease, s.task n (partition_of cfg task_id) task_id = some entry ∧ entry.status = .Running ∧
    entry.assigned_to = some n ∧ entry.lease_expires = some lease ∧ now < lease

theorem claim_pending {partition : Nat} (h : s.task n partition task_id = some entry) (hp : entry.status = .Pending) :
    s.claim n partition task_id = (true, s.put_task n partition task_id
      { entry with status := .Running, assigned_to := some n, lease_expires := some (s.clock n + 30000) }) := by
  rw [QueueCluster.claim, h]
  simp [hp]

/-- A claim of any other task fails and changes nothing. -/
theorem claim_not_pending {partition : Nat} (h : s.task n partition task_id = some entry)
    (hp : entry.status ≠ .Pending) : s.claim n partition task_id = (false, s) := by
  rw [QueueCluster.claim, h]
  simp [hp]

/-- In every state a run can reach, a listed task can be claimed in that state if
and only if it is pending. -/
theorem listed_claimable_iff (h : Reachable cfg net s) {tasks : List (TaskId × TaskEntry)} {s₁ : QueueCluster}
    (hlist : Runs (QueueSem cfg net) Eq (my_pending_tasks cfg n) s tasks s₁) (hmem : (task_id, entry) ∈ tasks) :
    (∀ r s', Runs (QueueSem cfg net) Eq (try_claim_task cfg n task_id) s r s' →
        r = .ok true ∧ Leased cfg n task_id (s.clock n) s') ↔ entry.status = .Pending := by
  obtain ⟨p, -, htask, -⟩ := ((my_pending_tasks_returns hlist).2 _).1 hmem
  -- the list goes by partitions, the claim by the hash of the id
  obtain rfl := (stored_of_reachable h htask).1
  constructor
  · intro hclaim
    by_contra hp
    have hno := (hclaim _ _ (try_claim_task_returns.2 ⟨rfl, rfl⟩)).1
    rw [claim_not_pending htask hp] at hno
    cases hno
  · intro hp r s' hrun
    obtain ⟨rfl, rfl⟩ := try_claim_task_returns.1 hrun
    rw [claim_pending htask hp]
    refine ⟨rfl, _, s.clock n + 30000, (QueueCluster.task_put_task _).trans (if_pos ⟨rfl, rfl, rfl⟩), rfl, rfl, rfl, ?_⟩
    omega

section Example

def solo : NodeRing NodeId := ⟨[node_a], by decide⟩

/-- One node, one copy. -/
def solo_cfg : MapConfig := demo_cfg solo 1

/-- Nothing gets lost, every handler panics. -/
def QueueInt_panics : (e : QueueAct) → QueueCluster → QueueI.Ans e × QueueCluster :=
  QueueInt (answered solo_cfg) fun _ => none

def idle : QueueCluster := .empty (demo_view solo) fun _ => 0

def submission : QueueM (Option (Result TaskId)) :=
  unattended (handle_submit_task solo_cfg node_a (.Execute "index_document" .Null))

def submitted : QueueCluster := (exec QueueInt_panics submission idle).2

/-- A worker has claimed the task and is gone. -/
def crashed : QueueCluster := (exec QueueInt_panics (unattended (worker_loop solo_cfg node_a)) submitted).2

/-- The lease has expired. -/
def expired : QueueCluster := { crashed with clock := fun _ => 30001 }

def task_x : TaskId := ⟨"x"⟩

theorem panics_sem (e : QueueAct) (s : QueueCluster) :
    QueueSem solo_cfg .reliable e s (QueueInt_panics e s).1 (QueueInt_panics e s).2 :=
  QueueInt_sem (allows_answered .reliable) e s

/-- What is available where the local node is primary is listed. -/
theorem listed_of_task (s : QueueCluster) (partition : Nat) (task_id : TaskId) (φ : TaskEntry → Prop) [DecidablePred φ]
    (htask : ((s.task n partition task_id).any fun entry => φ entry) = true)
    (havailable : ∀ entry, φ entry → Available (s.clock n) entry) (hprimary : IsPrimary cfg s n partition)
    {tasks : List (TaskId × TaskEntry)} {s₁ : QueueCluster}
    (hlist : Runs (QueueSem cfg net) Eq (my_pending_tasks cfg n) s tasks s₁) :
    ∃ entry, φ entry ∧ (task_id, entry) ∈ tasks := by
  cases h : s.task n partition task_id with
  | none => simp [h] at htask
  | some entry =>
    rw [h] at htask
    have hφ : φ entry := by simpa using htask
    exact ⟨entry, hφ, ((my_pending_tasks_returns hlist).2 (task_id, entry)).2
      ⟨partition, hprimary, h, havailable entry hφ⟩⟩

theorem steps_submitted {φ : (NodeId → MembershipService) → Prop} :
    StepsWithin solo_cfg .reliable φ (idle, []) (submitted, []) :=
  steps_alone panics_sem .refl (.submission node_a _)

theorem reachable_submitted : Reachable solo_cfg .reliable submitted := ⟨_, _, _, steps_submitted⟩

theorem steps_crashed {φ : (NodeId → MembershipService) → Prop} :
    StepsWithin solo_cfg .reliable φ (idle, []) (crashed, []) :=
  steps_alone panics_sem steps_submitted (.worker node_a)

theorem reachable_expired : Reachable solo_cfg .reliable expired :=
  ⟨_, _, _, steps_crashed.tail (.env expired (.beside (.tick fun _ => 30001)))⟩

theorem listing (s : QueueCluster) : Runs (QueueSem solo_cfg .reliable) Eq (my_pending_tasks solo_cfg node_a) s
    (exec QueueInt_panics (my_pending_tasks solo_cfg node_a) s).1
    (exec QueueInt_panics (my_pending_tasks solo_cfg node_a) s).2 :=
  exec_runs panics_sem _ s

theorem submitted_claimable :
    ∃ tasks s₁ entry, Runs (QueueSem solo_cfg .reliable) Eq (my_pending_tasks solo_cfg node_a) submitted tasks s₁ ∧
      (task_x, entry) ∈ tasks ∧
      ((∀ r s', Runs (QueueSem solo_cfg .reliable) Eq (try_claim_task solo_cfg node_a task_x) submitted r s' →
        r = .ok true ∧ Leased solo_cfg node_a task_x (submitted.clock node_a) s') ↔ entry.status = .Pending) := by
  obtain ⟨entry, -, hmem⟩ := listed_of_task submitted (partition_of solo_cfg task_x) task_x (·.status = .Pending)
    (by decide +kernel) (fun _ h => .inl h) ⟨by decide +kernel, by decide +kernel⟩ (listing submitted)
  exact ⟨_, _, entry, listing submitted, hmem, listed_claimable_iff reachable_submitted (listing submitted) hmem⟩

/-- After a worker is gone and its lease has expired, the task is listed but no
claim succeeds. -/
theorem expired_lease_not_claimable :
    ¬ ∀ (cfg : MapConfig) (net : Network) (s s₁ s' : QueueCluster) (n : NodeId) (tasks : List (TaskId × TaskEntry))
      (task_id : TaskId) (entry : TaskEntry) (r : Result Bool),
      Reachable cfg net s → Runs (QueueSem cfg net) Eq (my_pending_tasks cfg n) s tasks s₁ → (task_id, entry) ∈ tasks →
      Runs (QueueSem cfg net) Eq (try_claim_task cfg n task_id) s r s' →
      r = .ok true ∧ Leased cfg n task_id (s.clock n) s' := by
  intro h
  obtain ⟨entry, -, hmem⟩ := listed_of_task expired (partition_of solo_cfg task_x) task_x
    (fun entry => entry.status = .Running ∧ entry.lease_expires = some 30000) (by decide +kernel)
    (fun entry he => .inr ⟨he.1, 30000, he.2, by decide⟩) ⟨by decide +kernel, by decide +kernel⟩ (listing expired)
  have hclaim := h solo_cfg .reliable expired _ _ node_a _ task_x entry _ reachable_expired (listing expired) hmem
    (try_claim_task_returns.2 ⟨rfl, rfl⟩)
  have hfails : (expired.claim node_a (partition_of solo_cfg task_x) task_x).1 = false := by decide +kernel
  rw [hfails] at hclaim
  cases hclaim.1

end Example

end Executor
