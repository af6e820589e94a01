import DistributedCluster.Executor.Runs
/-!
# The handlers of tasks

`executor/registry.rs`: what a node runs for a task, by the name the task gives. What
a handler does besides is not part of the queue.
-/

namespace Executor

/-- What a handler may come to with a task; nothing if it panics. -/
abbrev TaskHandlerFn := Task → Option (Except String Unit) → Prop

structure TaskHandlerRegistry where
  handlers : DashMap String TaskHandlerFn

namespace TaskHandlerRegistry

def new : TaskHandlerRegistry := ⟨∅⟩

def register (r : TaskHandlerRegistry) (handler_name : String) (handler : TaskHandlerFn) : TaskHandlerRegistry :=
  ⟨r.handlers.insert handler_name handler⟩

def unknown (handler : String) : String := "Unknown task handler: " ++ handler

/-- What `execute` may answer. -/
def Executes (r : TaskHandlerRegistry) : Task → Option (Except String Unit) → Prop
  | .Execute handler payload, x =>
    match r.handlers.lookup handler with
    | some handler_fn => handler_fn (.Execute handler payload) x
    | none => x = some (.error (unknown handler))

variable {r : TaskHandlerRegistry} {handler name : String} {payload : JsonValue} {x : Option (Except String Unit)}

end TaskHandlerRegistry

/-- What each node's registry lets its workers see. -/
def Registered (registry : NodeId → TaskHandlerRegistry) : (e : QueueAct) → QueueCluster → QueueI.Ans e → Prop
  | .execute n task, _, x => (registry n).Executes task x
  | _, _, _ => True

end Executor
