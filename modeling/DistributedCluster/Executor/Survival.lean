import DistributedCluster.Executor.Divergence
import DistributedCluster.Executor.Takeover
/-!
# Accepted tasks after a crash

While all views are the same, only owners keep entries, and every owner keeps an
accepted task. So after a crash the new primary finds it where it, or its first
backup, was an owner before.
-/

namespace Executor

open Async

variable {cfg : MapConfig} {net : Network} {ring : NodeRing NodeId} {view view' : NodeId → MembershipService}
  {clock : NodeId → Nat} {n m f primary : NodeId} {p q : Nat} {id : TaskId} {task : Task} {s s' : QueueCluster}
  {l : QueuePool} {c c' : QueueCluster × QueuePool}

/-- The node a process runs at. -/
def Job.node : Job → NodeId
  | .submit n _ | .submission n _ | .worker n | .resync n | .arrival n _ => n

section Example

theorem agreed_quartet : Agreed quartet_cfg quartet (demo_view quartet) := agreed_demo 2 (fun _ h => h) (by decide)

end Example

end Executor
