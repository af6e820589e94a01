import DistributedCluster.Membership.Types
import DistributedCluster.Storage.Protocol
/-!
# Task types

`executor/types.rs` and `executor/protocol.rs`: tasks, their entries in the
queue and the bodies of the requests between nodes.
-/

namespace Executor

structure TaskId where
  text : String
  deriving DecidableEq, Repr

inductive TaskStatus
  | Pending
  | Running
  | Completed
  | Failed (error : String)
  deriving DecidableEq, Repr

/-- `{:?}` of a character within a text, as far as it is ASCII. -/
def debug_char : Char → List Char
  | '"' => ['\\', '"']
  | '\\' => ['\\', '\\']
  | '\n' => ['\\', 'n']
  | '\r' => ['\\', 'r']
  | '\t' => ['\\', 't']
  | '\x00' => ['\\', '0']
  | c => [c]

/-- `{:?}` -/
def TaskStatus.debug : TaskStatus → String
  | .Pending => "Pending"
  | .Running => "Running"
  | .Completed => "Completed"
  | .Failed error => "Failed \x7b error: \"" ++ String.ofList (error.toList.flatMap debug_char) ++ "\" \x7d"

inductive Task
  | Execute (handler : String) (payload : JsonValue)

/-- The times are milliseconds of the node's clock. -/
structure TaskEntry where
  task : Task
  status : TaskStatus
  assigned_to : Option NodeId
  created_at : Nat
  lease_expires : Option Nat

structure SubmitTaskResponse where
  task_id : TaskId

structure GetTaskResponse where
  task : Option TaskEntry

structure TaskStatusResponse where
  task_id : TaskId
  status : TaskStatus
  assigned_to : Option NodeId
  created_at : Nat

structure ForwardTaskRequest where
  partition : Nat
  task_id : TaskId
  task : Task

structure ReplicateTaskRequest where
  partition : Nat
  task_id : TaskId
  entry : TaskEntry

structure TaskPartitionDumpResponse where
  partition : Nat
  entries : List (TaskId × TaskEntry)

/-- A request between nodes, by endpoint. -/
inductive TaskRequest
  /-- `/internal/submit_task` -/
  | internal_submit (req : ForwardTaskRequest)
  /-- `/internal/replicate_task` -/
  | replicate (req : ReplicateTaskRequest)
  /-- `/internal/task_partition/{partition}` -/
  | partition_dump (partition : Nat)
  /-- `/internal/get_task/{key}` -/
  | get_task (key : String)

end Executor
