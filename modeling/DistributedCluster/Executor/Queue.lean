import DistributedCluster.Executor.Cluster
/-!
# The distributed queue

`executor/queue.rs`, `executor/executor.rs`, the queue's handlers and
`sync_queue_partitions` of `main.rs`. The first argument `n` of an operation is
the node it runs at. Log lines and pauses are left out.
-/

namespace Executor

open Async

abbrev QueueM := Async QueueI

def act (e : QueueAct) : QueueM (QueueI.Ans e) := perform (I := QueueI) e

def membership (n : NodeId) : QueueM MembershipService := act (.membership n)
def new_task_id (n : NodeId) : QueueM TaskId := act (.new_task_id n)
def now_ms (n : NodeId) : QueueM Nat := act (.now_ms n)
def lookup (n : NodeId) (partition : Nat) (task_id : TaskId) : QueueM (Option TaskEntry) :=
  act (.lookup n partition task_id)
def store_local (n : NodeId) (partition : Nat) (task_id : TaskId) (entry : TaskEntry) : QueueM Unit :=
  act (.store_local n partition task_id entry)
def apply_partition_entries (n : NodeId) (partition : Nat) (entries : List (TaskId × TaskEntry)) : QueueM Unit :=
  act (.apply_partition_entries n partition entries)
def dump_partition (n : NodeId) (partition : Nat) : QueueM (List (TaskId × TaskEntry)) :=
  act (.dump_partition n partition)
def has_partition (n : NodeId) (partition : Nat) : QueueM Bool := act (.has_partition n partition)
def claim (n : NodeId) (partition : Nat) (task_id : TaskId) : QueueM Bool := act (.claim n partition task_id)
def complete (n : NodeId) (partition : Nat) (task_id : TaskId) (result : Except String Unit) : QueueM (Result Unit) :=
  act (.complete n partition task_id result)
def spawn_lease_renewal (n : NodeId) (task_id : TaskId) : QueueM Unit := act (.spawn_renewal n task_id)
def abort_renewal (n : NodeId) (task_id : TaskId) : QueueM Unit := act (.abort_renewal n task_id)
def execute_task (n : NodeId) (task : Task) : QueueM (Option (Except String Unit)) := act (.execute n task)
def iterate (n : NodeId) (set : List Nat) : QueueM (List Nat) := act (.iterate n set)
def send (n : NodeId) (addr : SocketAddr) (req : TaskRequest) (attempt : Nat) : QueueM (Fate NodeId) :=
  act (.send n addr req attempt)

variable (cfg : MapConfig)

def get_owners (n : NodeId) (partition : Nat) : QueueM (List NodeId) := do
  pure (cfg.partitioner.get_owners (← membership n) partition)

def get_member (n : NodeId) (node_id : NodeId) : QueueM (Option Node) := do
  pure ((← membership n).get_member node_id)

/-- `post_with_retry` and `get_with_retry`. -/
def request {ρ : Type} (n : NodeId) (addr : SocketAddr) (req : TaskRequest) (serve : NodeId → QueueM ρ)
    (attempts : Nat) : QueueM (Result ρ) :=
  retry (send n addr req) serve attempts

/-! ## Submission -/

/-- The entry of a task that nobody has claimed. -/
def pending_entry (n : NodeId) (task : Task) : QueueM TaskEntry := do
  let created_at ← now_ms n
  pure { task, status := .Pending, assigned_to := none, created_at, lease_expires := none }

def handle_replicate_task (m : NodeId) (req : ReplicateTaskRequest) : QueueM StatusCode := do
  store_local m req.partition req.task_id req.entry
  pure .OK

def replicate_task_to_backup (n backup : NodeId) (partition : Nat) (task_id : TaskId) (entry : TaskEntry) :
    QueueM (Result Unit) := do
  match ← get_member n backup with
  | none => pure (.error (.anyhow "Backup node not found"))
  | some node => do
    let payload : ReplicateTaskRequest := ⟨partition, task_id, entry⟩
    match ← request n node.http_addr (.replicate payload) (fun m => handle_replicate_task m payload) 3 with
    | .error e => pure (.error e)
    | .ok status =>
      if status.is_success then pure (.ok ())
      else pure (.error (.anyhow ("Task replication failed: " ++ status.display)))

/-- `for backup in owners.iter().skip(1)`, ended by the first error. -/
def replicate_all (n : NodeId) (partition : Nat) (task_id : TaskId) (entry : TaskEntry) :
    List NodeId → QueueM (Result Unit)
  | [] => pure (.ok ())
  | backup :: backups => do
    match ← replicate_task_to_backup n backup partition task_id entry with
    | .ok _ => replicate_all n partition task_id entry backups
    | .error e => pure (.error e)

def store_as_primary (n : NodeId) (partition : Nat) (task_id : TaskId) (entry : TaskEntry) :
    QueueM (Result Unit) := do
  store_local n partition task_id entry
  let owners ← get_owners cfg n partition
  replicate_all n partition task_id entry owners.tail

def handle_internal_submit_task (m : NodeId) (req : ForwardTaskRequest) :
    QueueM (StatusCode × SubmitTaskResponse) := do
  let entry ← pending_entry m req.task
  match ← store_as_primary cfg m req.partition req.task_id entry with
  | .error _ => pure (.INTERNAL_SERVER_ERROR, ⟨req.task_id⟩)
  | .ok _ => pure (.OK, ⟨req.task_id⟩)

def forward_task (n target : NodeId) (partition : Nat) (task_id : TaskId) (task : Task) : QueueM (Result Unit) := do
  match ← get_member n target with
  | none => pure (.error (.anyhow "Target node not found"))
  | some node => do
    let payload : ForwardTaskRequest := ⟨partition, task_id, task⟩
    match ← request n node.http_addr (.internal_submit payload)
        (fun m => handle_internal_submit_task cfg m payload) 3 with
    | .error e => pure (.error e)
    | .ok response =>
      if response.1.is_success then pure (.ok ())
      else pure (.error (.anyhow ("Forward failed: " ++ response.1.display)))

/-- The partition of a task. -/
def partition_of (task_id : TaskId) : Nat := cfg.partitioner.get_partition task_id.text

def submit (n : NodeId) (task : Task) : QueueM (Result TaskId) := do
  let task_id ← new_task_id n
  let partition := partition_of cfg task_id
  let owners ← get_owners cfg n partition
  match owners with
  | [] => do
    let entry ← pending_entry n task
    store_local n partition task_id entry
    pure (.ok task_id)
  | primary :: _ =>
    if primary = n then do
      let entry ← pending_entry n task
      match ← store_as_primary cfg n partition task_id entry with
      | .ok _ => pure (.ok task_id)
      | .error e => pure (.error e)
    else do
      match ← forward_task cfg n primary partition task_id task with
      | .ok _ => pure (.ok task_id)
      | .error e => pure (.error e)

/-- On an error the answer carries an id of no task. -/
def handle_submit_task (n : NodeId) (task : Task) : QueueM (StatusCode × SubmitTaskResponse) := do
  match ← submit cfg n task with
  | .ok task_id => pure (.OK, ⟨task_id⟩)
  | .error _ => do
    let task_id ← new_task_id n
    pure (.INTERNAL_SERVER_ERROR, ⟨task_id⟩)

/-! ## Workers -/

/-- The partitions whose owners are as `mine` says; the view is looked at once for each. -/
def partitions_where (n : NodeId) (mine : List NodeId → Bool) : QueueM (List Nat) :=
  (List.range cfg.partitioner.num_partitions).filterM fun partition => do
    pure (mine (← get_owners cfg n partition))

def get_my_primary_partitions (n : NodeId) : QueueM (List Nat) :=
  partitions_where cfg n fun owners => owners.head? == some n

/-- Whether an entry may be executed. -/
def is_available (n : NodeId) (entry : TaskEntry) : QueueM Bool :=
  match entry.status with
  | .Pending => pure true
  | .Running =>
    match entry.lease_expires with
    | some lease => do
      let now ← now_ms n
      pure (decide (now > lease))
    | none => pure false
  | .Completed | .Failed _ => pure false

def available_tasks (n : NodeId) : List (TaskId × TaskEntry) → QueueM (List (TaskId × TaskEntry))
  | [] => pure []
  | e :: entries => do
    let available ← is_available n e.2
    let tasks ← available_tasks n entries
    pure (if available then e :: tasks else tasks)

def pending_tasks (n : NodeId) : List Nat → QueueM (List (TaskId × TaskEntry))
  | [] => pure []
  | partition :: partitions => do
    let entries ← dump_partition n partition
    let tasks ← available_tasks n entries
    let others ← pending_tasks n partitions
    pure (tasks ++ others)

def my_pending_tasks (n : NodeId) : QueueM (List (TaskId × TaskEntry)) := do
  let my_partitions ← get_my_primary_partitions cfg n
  pending_tasks n my_partitions

def try_claim_task (n : NodeId) (task_id : TaskId) : QueueM (Result Bool) := do
  let claimed ← claim n (partition_of cfg task_id) task_id
  pure (.ok claimed)

def complete_task (n : NodeId) (task_id : TaskId) (result : Except String Unit) : QueueM (Result Unit) :=
  complete n (partition_of cfg task_id) task_id result

/-- A handler that panics takes the worker with it, but not the renewal loop. -/
def execute_with_lease (n : NodeId) (task_id : TaskId) (task : Task) : QueueM Unit := do
  spawn_lease_renewal n task_id
  match ← execute_task n task with
  | none => pure ()
  | some result => do
    abort_renewal n task_id
    let _ ← complete_task cfg n task_id result
    pure ()

/-- Execute the first task that can be claimed. -/
def claim_first (n : NodeId) : List (TaskId × TaskEntry) → QueueM Unit
  | [] => pure ()
  | (task_id, entry) :: tasks => do
    match ← try_claim_task cfg n task_id with
    | .ok true => execute_with_lease cfg n task_id entry.task
    | _ => claim_first n tasks

/-- One pass of the loop of a worker. -/
def worker_loop (n : NodeId) : QueueM Unit := do
  let tasks ← my_pending_tasks cfg n
  claim_first cfg n tasks

/-! ## Status queries -/

def get_task_local (n : NodeId) (task_id : TaskId) : QueueM (Option TaskEntry) :=
  lookup n (partition_of cfg task_id) task_id

def handle_get_task_internal (m : NodeId) (task_id_str : String) : QueueM (StatusCode × GetTaskResponse) := do
  match ← get_task_local cfg m ⟨task_id_str⟩ with
  | some entry => pure (.OK, ⟨some entry⟩)
  | none => pure (.NOT_FOUND, ⟨none⟩)

/-- `GET /internal/get_task/{key}`, unless the router answers itself. -/
def route_get_task_internal (m : NodeId) (path : String) : QueueM (StatusCode × GetTaskResponse) :=
  match cfg.route path with
  | .error status => pure (status, ⟨none⟩)
  | .ok task_id_str => handle_get_task_internal cfg m task_id_str

def fetch_remote (n node_id : NodeId) (key : String) : QueueM (Result (Option TaskEntry)) := do
  match ← get_member n node_id with
  | none => pure (.error (.anyhow ("Owner node not found: NodeId(\"" ++ node_id.text ++ "\")")))
  | some node =>
    match ← request n node.http_addr (.get_task key) (fun m => route_get_task_internal cfg m key) 3 with
    | .error e => pure (.error e)
    | .ok response =>
      if response.1.is_success then pure (.ok response.2.task)
      else pure (.error (.anyhow ("GET request failed " ++ response.1.display)))

/-- `for owner in owners.iter()`, ended by the first task found. -/
def fetch_first (n : NodeId) (key : String) : List NodeId → QueueM (Option TaskEntry)
  | [] => pure none
  | owner :: owners => do
    match ← fetch_remote cfg n owner key with
    | .ok (some task) => pure (some task)
    | .ok none => fetch_first n key owners
    | .error _ => fetch_first n key owners

def get_task (n : NodeId) (task_id : TaskId) : QueueM (Option TaskEntry) := do
  match ← get_task_local cfg n task_id with
  | some task_entry => pure (some task_entry)
  | none => do
    let owners ← get_owners cfg n (partition_of cfg task_id)
    match owners with
    | [] => pure none
    | primary :: _ => if primary = n then pure none else fetch_first cfg n task_id.text owners

def task_status (task_id : TaskId) : Option TaskEntry → StatusCode × Option TaskStatusResponse
  | some entry => (.OK, some ⟨task_id, entry.status, entry.assigned_to, entry.created_at⟩)
  | none => (.NOT_FOUND, none)

def handle_get_task_status (n : NodeId) (task_id_str : String) : QueueM (StatusCode × Option TaskStatusResponse) := do
  let task_id : TaskId := ⟨task_id_str⟩
  let owners ← get_owners cfg n (partition_of cfg task_id)
  if owners.head? = some n then do
    let entry ← get_task cfg n task_id
    pure (task_status task_id entry)
  else do
    let entry ← get_task cfg n task_id
    pure (task_status task_id entry)

/-! ## Anti-entropy -/

def handle_task_partition_dump (m : NodeId) (partition : Nat) : QueueM TaskPartitionDumpResponse := do
  let entries ← dump_partition m partition
  pure ⟨partition, entries⟩

def fetch_partition (n node_id : NodeId) (partition : Nat) : QueueM (Result (List (TaskId × TaskEntry))) := do
  match ← get_member n node_id with
  | none => pure (.error (.anyhow ("Owner node not found: NodeId(\"" ++ node_id.text ++ "\")")))
  | some node =>
    match ← request n node.http_addr (.partition_dump partition) (fun m => handle_task_partition_dump m partition) 3 with
    | .error e => pure (.error e)
    | .ok dump => pure (.ok dump.entries)

/-- Fetch the partition and apply what came, if anything came. -/
def resync (n source_owner : NodeId) (partition : Nat) : QueueM Unit := do
  match ← fetch_partition n source_owner partition with
  | .ok entries => if entries.isEmpty then pure () else apply_partition_entries n partition entries
  | .error _ => pure ()

def sync_queue_partition (n : NodeId) (partition : Nat) : QueueM Unit := do
  let owners ← get_owners cfg n partition
  match owners with
  | [] => pure ()
  | primary :: backups =>
    if primary = n then do
      if ← has_partition n partition then pure ()
      else
        match backups with
        | [] => pure ()
        | source_owner :: _ => resync n source_owner partition
    else resync n primary partition

def sync_each (n : NodeId) : List Nat → QueueM Unit
  | [] => pure ()
  | partition :: partitions => do
    sync_queue_partition cfg n partition
    sync_each n partitions

def my_primary_partitions (n : NodeId) : QueueM (List Nat) := partitions_where cfg n fun owners => owners.head? == some n

def my_backup_partitions (n : NodeId) : QueueM (List Nat) := partitions_where cfg n fun owners => owners.tail.contains n

/-- The partitions of the node, in no particular order. -/
def target_partitions (n : NodeId) : QueueM (List Nat) := do
  let primary_partitions ← my_primary_partitions cfg n
  let backup_partitions ← my_backup_partitions cfg n
  iterate n (primary_partitions ++ backup_partitions).dedup

def sync_queue_partitions (n : NodeId) : QueueM (Result Unit) := do
  let partitions ← target_partitions cfg n
  sync_each cfg n partitions
  pure (.ok ())

end Executor
