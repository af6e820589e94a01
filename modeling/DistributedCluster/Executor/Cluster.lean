import DistributedCluster.Executor.Types
import DistributedCluster.Storage.Cluster
/-!
# The state of the task queue

One `DistributedQueue` over all nodes and the workers beside it. The atomic
actions are one access of the task map under its lock, one look at the
membership view or the clock, one attempt of a request.
-/

namespace Executor

/-- What one node keeps. `renewals` are the lease renewal loops that run. -/
structure QueueNode where
  local_tasks : DashMap Nat (DashMap TaskId TaskEntry)
  renewals : List TaskId

/-- `sent` holds every request ever sent: any of them may arrive late. `used`
holds every task id generated. -/
structure QueueCluster where
  node : NodeId → QueueNode
  view : NodeId → MembershipService
  clock : NodeId → Nat
  sent : List (NodeId × SocketAddr × TaskRequest)
  used : Finset String

/-- `if !partition_map.contains_key(&task_id) { partition_map.insert(task_id, entry) }` -/
def insert_new (partition_map : DashMap TaskId TaskEntry) (e : TaskId × TaskEntry) : DashMap TaskId TaskEntry :=
  if (partition_map.lookup e.1).isSome then partition_map else partition_map.insert e.1 e.2

namespace QueueCluster

variable (s : QueueCluster) (n : NodeId)

/-- The entry node `n` keeps for a task under `partition`. -/
def task (partition : Nat) (task_id : TaskId) : Option TaskEntry :=
  ((s.node n).local_tasks.lookup partition).bind fun partition_map => partition_map.lookup task_id

def partition_map (partition : Nat) : DashMap TaskId TaskEntry := ((s.node n).local_tasks.lookup partition).getD ∅

def set_partition (partition : Nat) (tasks : DashMap TaskId TaskEntry) : QueueCluster :=
  { s with
    node := Function.update s.node n
      { s.node n with local_tasks := (s.node n).local_tasks.insert partition tasks } }

def store_local (partition : Nat) (task_id : TaskId) (entry : TaskEntry) : QueueCluster :=
  s.set_partition n partition (insert_new (s.partition_map n partition) (task_id, entry))

def apply_partition_entries (partition : Nat) (entries : List (TaskId × TaskEntry)) : QueueCluster :=
  s.set_partition n partition (entries.foldl insert_new (s.partition_map n partition))

def put_task (partition : Nat) (task_id : TaskId) (entry : TaskEntry) : QueueCluster :=
  s.set_partition n partition ((s.partition_map n partition).insert task_id entry)

def dump_partition (partition : Nat) : List (TaskId × TaskEntry) :=
  match (s.node n).local_tasks.lookup partition with
  | some partition_map => partition_map.iter
  | none => []

def has_partition (partition : Nat) : Bool :=
  match (s.node n).local_tasks.lookup partition with
  | some partition_map => !partition_map.isEmpty
  | none => false

/-- What `try_claim_task` does under the lock of the entry. -/
def claim (partition : Nat) (task_id : TaskId) : Bool × QueueCluster :=
  match s.task n partition task_id with
  | some entry =>
    if entry.status ≠ .Pending then (false, s)
    else (true, s.put_task n partition task_id
      { entry with status := .Running, assigned_to := some n, lease_expires := some (s.clock n + 30000) })
  | none => (false, s)

/-- What `renew_lease` does under the lock of the entry. -/
def renew (partition : Nat) (task_id : TaskId) : Result Unit × QueueCluster :=
  match s.task n partition task_id with
  | some entry =>
    if entry.status = .Running then
      (.ok (), s.put_task n partition task_id { entry with lease_expires := some (s.clock n + 30000) })
    else (.error (.anyhow ("Task not running (status: " ++ entry.status.debug ++ ")")), s)
  | none => (.error (.anyhow "Task not found"), s)

def finished : Except String Unit → TaskStatus
  | .ok _ => .Completed
  | .error e => .Failed e

/-- What `complete_task` does under the lock of the entry. -/
def complete (partition : Nat) (task_id : TaskId) (result : Except String Unit) : Result Unit × QueueCluster :=
  match s.task n partition task_id with
  | some entry =>
    (.ok (), s.put_task n partition task_id { entry with status := finished result, lease_expires := none })
  | none => (.error (.anyhow "Task not found"), s)

def spawn_renewal (task_id : TaskId) : QueueCluster :=
  { s with node := Function.update s.node n { s.node n with renewals := task_id :: (s.node n).renewals } }

def abort_renewal (task_id : TaskId) : QueueCluster :=
  { s with node := Function.update s.node n { s.node n with renewals := (s.node n).renewals.erase task_id } }

def send (addr : SocketAddr) (req : TaskRequest) : QueueCluster := { s with sent := (n, addr, req) :: s.sent }

def use (task_id : TaskId) : QueueCluster := { s with used := insert task_id.text s.used }

/-- No tasks, no renewals, no requests. -/
def empty (view : NodeId → MembershipService) (clock : NodeId → Nat) : QueueCluster :=
  { node := fun _ => ⟨∅, []⟩, view, clock, sent := [], used := ∅ }

/-! ## What the updates change -/

variable {s n} {m : NodeId} {p partition : Nat} {id task_id : TaskId}

theorem lookup_partition_map : (s.partition_map n partition).lookup task_id = s.task n partition task_id := by
  unfold partition_map task
  cases (s.node n).local_tasks.lookup partition with
  | none => rfl
  | some tasks => rfl

theorem task_set_partition (tasks : DashMap TaskId TaskEntry) :
    (s.set_partition n partition tasks).task m p id =
      if m = n ∧ p = partition then tasks.lookup id else s.task m p id := by
  by_cases hm : m = n
  · subst hm
    by_cases hp : p = partition
    · subst hp
      simp [task, set_partition]
    · simp [task, set_partition, hp]
  · simp [task, set_partition, hm]

theorem task_put_task (entry : TaskEntry) :
    (s.put_task n partition task_id entry).task m p id =
      if m = n ∧ p = partition ∧ id = task_id then some entry else s.task m p id := by
  rw [put_task, task_set_partition]
  by_cases h : m = n ∧ p = partition
  · obtain ⟨rfl, rfl⟩ := h
    simp [DashMap.lookup_insert_eq, lookup_partition_map]
  · rw [if_neg h, if_neg fun h' => h ⟨h'.1, h'.2.1⟩]

/-- A claim finds the task pending, or leaves everything as it is. -/
theorem claim_cases (s : QueueCluster) (n : NodeId) (partition : Nat) (task_id : TaskId) :
    s.claim n partition task_id = (false, s) ∨
      ∃ entry, s.task n partition task_id = some entry ∧ entry.status = .Pending ∧
        s.claim n partition task_id = (true, s.put_task n partition task_id
          { entry with status := .Running, assigned_to := some n, lease_expires := some (s.clock n + 30000) }) := by
  unfold claim
  split
  · rename_i entry hentry
    split
    · exact .inl rfl
    · rename_i hpending
      exact .inr ⟨entry, hentry, not_not.1 hpending, rfl⟩
  · exact .inl rfl

theorem lookup_insert_new (tasks : DashMap TaskId TaskEntry) (e : TaskId × TaskEntry) :
    (insert_new tasks e).lookup id = (tasks.lookup id).or (if id = e.1 then some e.2 else none) := by
  unfold insert_new
  by_cases he : id = e.1
  · subst he
    split
    · rename_i h
      obtain ⟨entry, hentry⟩ := Option.isSome_iff_exists.1 h
      simp [hentry]
    · rename_i h
      simp [Option.not_isSome_iff_eq_none.1 h]
  · split
    · simp
    · simp [he]

theorem task_store_local (entry : TaskEntry) :
    (s.store_local n partition task_id entry).task m p id =
      if m = n ∧ p = partition ∧ id = task_id then (s.task m p id).or (some entry) else s.task m p id := by
  rw [store_local, task_set_partition]
  by_cases h : m = n ∧ p = partition
  · obtain ⟨rfl, rfl⟩ := h
    rw [lookup_insert_new, lookup_partition_map]
    by_cases hid : id = task_id <;> simp [hid]
  · rw [if_neg h, if_neg fun h' => h ⟨h'.1, h'.2.1⟩]

/-- Entries that are there take precedence over new ones. -/
theorem lookup_insert_all (entries : List (TaskId × TaskEntry)) (tasks : DashMap TaskId TaskEntry) {entry : TaskEntry}
    (h : (entries.foldl insert_new tasks).lookup id = some entry) :
    tasks.lookup id = some entry ∨ (id, entry) ∈ entries := by
  induction entries generalizing tasks with
  | nil => exact .inl h
  | cons e entries ih =>
    rcases ih (insert_new tasks e) h with h | h
    · rw [lookup_insert_new] at h
      rcases Option.or_eq_some_iff.1 h with hold | ⟨-, hnew⟩
      · exact .inl hold
      · split at hnew
        · rename_i hid
          rw [hid, ← Option.some.inj hnew]
          exact .inr List.mem_cons_self
        · cases hnew
    · exact .inr (List.mem_cons_of_mem _ h)

theorem task_of_apply_partition_entries {entries : List (TaskId × TaskEntry)} {entry : TaskEntry}
    (h : (s.apply_partition_entries n partition entries).task m p id = some entry) :
    s.task m p id = some entry ∨ p = partition ∧ (id, entry) ∈ entries := by
  rw [apply_partition_entries, task_set_partition] at h
  split at h
  · rename_i hmp
    obtain ⟨rfl, rfl⟩ := hmp
    exact (lookup_insert_all entries _ h).imp (fun h => lookup_partition_map ▸ h) fun h => ⟨rfl, h⟩
  · exact .inl h

/-- What is applied is there afterwards. -/
theorem isSome_insert_all {entries : List (TaskId × TaskEntry)} {tasks : DashMap TaskId TaskEntry} {entry : TaskEntry}
    (h : (tasks.lookup id).isSome ∨ (id, entry) ∈ entries) : ((entries.foldl insert_new tasks).lookup id).isSome := by
  induction entries generalizing tasks with
  | nil => exact h.resolve_right List.not_mem_nil
  | cons e entries ih =>
    refine ih ?_
    rw [lookup_insert_new]
    rcases h with hkept | hmem
    · exact .inl (by simp [hkept])
    · rcases List.mem_cons.1 hmem with rfl | hmem
      · exact .inl (by simp)
      · exact .inr hmem

theorem has_partition_iff : s.has_partition n partition = true ↔ ∃ task_id, (s.task n partition task_id).isSome := by
  unfold has_partition task
  cases (s.node n).local_tasks.lookup partition with
  | none => simp
  | some tasks =>
    simp only [Bool.not_eq_true', ← Bool.not_eq_true, DashMap.isEmpty_iff, Option.bind_some, Option.isSome_iff_exists]
    exact DashMap.ne_empty_iff

theorem mem_dump_partition {entry : TaskEntry} :
    (task_id, entry) ∈ s.dump_partition n partition ↔ s.task n partition task_id = some entry := by
  unfold dump_partition task
  cases (s.node n).local_tasks.lookup partition with
  | none => simp
  | some tasks => exact DashMap.mem_iter

end QueueCluster

/-! ## Actions -/

/-- The first argument is the node that acts. -/
inductive QueueAct
  | membership (n : NodeId)
  | new_task_id (n : NodeId)
  | now_ms (n : NodeId)
  | lookup (n : NodeId) (partition : Nat) (task_id : TaskId)
  | store_local (n : NodeId) (partition : Nat) (task_id : TaskId) (entry : TaskEntry)
  | apply_partition_entries (n : NodeId) (partition : Nat) (entries : List (TaskId × TaskEntry))
  | dump_partition (n : NodeId) (partition : Nat)
  | has_partition (n : NodeId) (partition : Nat)
  | claim (n : NodeId) (partition : Nat) (task_id : TaskId)
  | complete (n : NodeId) (partition : Nat) (task_id : TaskId) (result : Except String Unit)
  | spawn_renewal (n : NodeId) (task_id : TaskId)
  | abort_renewal (n : NodeId) (task_id : TaskId)
  /-- Run the registered handler; no answer if it panics. -/
  | execute (n : NodeId) (task : Task)
  | iterate (n : NodeId) (set : List Nat)
  | send (n : NodeId) (addr : SocketAddr) (req : TaskRequest) (attempt : Nat)

abbrev QueueI : Interface where
  Act := QueueAct
  Ans
    | .membership .. => MembershipService
    | .new_task_id .. => TaskId
    | .now_ms .. => Nat
    | .lookup .. => Option TaskEntry
    | .dump_partition .. => List (TaskId × TaskEntry)
    | .has_partition .. => Bool
    | .claim .. => Bool
    | .complete .. => Result Unit
    | .execute .. => Option (Except String Unit)
    | .iterate .. => List Nat
    | .send .. => Fate NodeId
    | .store_local .. | .apply_partition_entries .. | .spawn_renewal .. | .abort_renewal .. => Unit

/-- What each action may answer and do. A new task id is one never used before;
what a handler does is not part of the queue. -/
def QueueSem (cfg : MapConfig) (net : Network) : Sem QueueI QueueCluster
  | .membership n, s, x, s' => x = s.view n ∧ s' = s
  | .new_task_id _, s, x, s' => x.text ∉ s.used ∧ s' = s.use x
  | .now_ms n, s, x, s' => x = s.clock n ∧ s' = s
  | .lookup n partition task_id, s, x, s' => x = s.task n partition task_id ∧ s' = s
  | .store_local n partition task_id entry, s, _, s' => s' = s.store_local n partition task_id entry
  | .apply_partition_entries n partition entries, s, _, s' => s' = s.apply_partition_entries n partition entries
  | .dump_partition n partition, s, x, s' => x = s.dump_partition n partition ∧ s' = s
  | .has_partition n partition, s, x, s' => x = s.has_partition n partition ∧ s' = s
  | .claim n partition task_id, s, x, s' => (x, s') = s.claim n partition task_id
  | .complete n partition task_id result, s, x, s' => (x, s') = s.complete n partition task_id result
  | .spawn_renewal n task_id, s, _, s' => s' = s.spawn_renewal n task_id
  | .abort_renewal n task_id, s, _, s' => s' = s.abort_renewal n task_id
  | .execute _ _, s, _, s' => s' = s
  | .iterate _ set, s, x, s' => x.Perm set ∧ s' = s
  | .send n addr req _, s, x, s' => net.allows (cfg.host n) addr x ∧ s' = s.send n addr req

/-- One way to answer every action, if `fate` chooses what becomes of requests
and `outcome` what becomes of handlers. -/
def QueueInt (fate : NodeId → SocketAddr → Fate NodeId) (outcome : Task → Option (Except String Unit)) :
    (e : QueueAct) → QueueCluster → QueueI.Ans e × QueueCluster
  | .membership n, s => (s.view n, s)
  | .new_task_id _, s => (⟨fresh_uuid s.used⟩, s.use ⟨fresh_uuid s.used⟩)
  | .now_ms n, s => (s.clock n, s)
  | .lookup n partition task_id, s => (s.task n partition task_id, s)
  | .store_local n partition task_id entry, s => ((), s.store_local n partition task_id entry)
  | .apply_partition_entries n partition entries, s => ((), s.apply_partition_entries n partition entries)
  | .dump_partition n partition, s => (s.dump_partition n partition, s)
  | .has_partition n partition, s => (s.has_partition n partition, s)
  | .claim n partition task_id, s => s.claim n partition task_id
  | .complete n partition task_id result, s => s.complete n partition task_id result
  | .spawn_renewal n task_id, s => ((), s.spawn_renewal n task_id)
  | .abort_renewal n task_id, s => ((), s.abort_renewal n task_id)
  | .execute _ task, s => (outcome task, s)
  | .iterate _ set, s => (set, s)
  | .send n addr req _, s => (fate n addr, s.send n addr req)

theorem QueueInt_sem {cfg : MapConfig} {net : Network} {fate : NodeId → SocketAddr → Fate NodeId}
    {outcome : Task → Option (Except String Unit)} (h : ∀ n addr, net.allows (cfg.host n) addr (fate n addr))
    (e : QueueAct) (s : QueueCluster) :
    QueueSem cfg net e s (QueueInt fate outcome e s).1 (QueueInt fate outcome e s).2 := by
  cases e with
  | new_task_id n => exact ⟨fresh_uuid_notMem s.used, rfl⟩
  | iterate n set => exact ⟨.refl set, rfl⟩
  | send n addr req i => exact ⟨h n addr, rfl⟩
  | membership n | now_ms n | lookup n partition id | dump_partition n partition | has_partition n partition => exact ⟨rfl, rfl⟩
  | _ => rfl

/-- Every action can answer. -/
theorem QueueSem_total (cfg : MapConfig) (net : Network) (e : QueueAct) (s : QueueCluster) :
    ∃ x s', QueueSem cfg net e s x s' :=
  have h : QueueSem cfg net e s (QueueInt (answered cfg) (fun _ => none) e s).1 _ := QueueInt_sem (allows_answered net) e s
  ⟨_, _, h⟩

end Executor
