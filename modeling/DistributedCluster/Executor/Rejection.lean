import DistributedCluster.Executor.Survival
/-!
# Rejected submissions

The primary stores a task before it replicates it, and nothing is taken back when
that fails. So a task whose submission was rejected is kept and may be executed,
unless it has not left the node it was submitted to.
-/

namespace Executor

open Async

variable {cfg : MapConfig} {net : Network} {ring : NodeRing NodeId} {view : NodeId → MembershipService} {clock : NodeId → Nat}
  {c c' c₁ c₂ : QueueCluster × QueuePool} {s s' : QueueCluster} {l : QueuePool} {job : Job} {g : Ghost} {gs : Multiset Ghost}
  {n m primary : NodeId} {p : Nat} {id : TaskId} {task : Task} {k : Result TaskId → QueueM (Option (Result TaskId))}

/-! ## A submission draws its id -/

/-- What `handle_submit_task` answers to the result of `submit`. -/
def respond (n : NodeId) : Result TaskId → QueueM (StatusCode × SubmitTaskResponse)
  | .ok task_id => pure (.OK, ⟨task_id⟩)
  | .error _ => do
    let task_id ← new_task_id n
    pure (.INTERNAL_SERVER_ERROR, ⟨task_id⟩)

/-- Who calls `submit`, and what becomes of the result: `awaited`, and the handler of
`POST /submit_task`. -/
inductive Caller (n : NodeId) (task : Task) : Job → (Result TaskId → QueueM (Option (Result TaskId))) → Prop
  | submit : Caller n task (.submit n task) fun result => pure (some result)
  | submission : Caller n task (.submission n task) fun result => unattended (respond n result)

/-- A submission of the task to node `n` draws `id`. -/
def Draws (cfg : MapConfig) (n : NodeId) (task : Task) (id : TaskId) (c c' : QueueCluster × QueuePool) : Prop :=
  ∃ job k l₁ l₂, Caller n task job k ∧ c.2 = l₁ ++ (job, (submit cfg n task).bind k) :: l₂ ∧ id.text ∉ c.1.used ∧
    c' = (c.1.use id, l₁ ++ (job, (submit_as cfg n task id).bind k) :: l₂)

theorem Draws.step {spawn : QueueCluster → QueuePool → Job → QueueM (Option (Result TaskId)) → Prop}
    {env : QueueCluster → QueuePool → QueueCluster → Prop} (h : Draws cfg n task id c c') :
    Pool.Step (fun _ => QueueSem cfg net) spawn env c c' := by
  obtain ⟨job, k, l₁, l₂, -, hl, hnew, rfl⟩ := h
  obtain ⟨s, l⟩ := c
  obtain rfl : l = l₁ ++ (job, (submit cfg n task).bind k) :: l₂ := hl
  have hact : QueueSem cfg net (.new_task_id n) s id (s.use id) := ⟨hnew, rfl⟩
  exact Pool.Step.run (S := fun _ => QueueSem cfg net) job (QueueAct.new_task_id n) _ id hact

section Forwarding

variable (hview : Agreed cfg ring view) (hn : n ∈ ring.ids)

include hview hn

end Forwarding

section Example

end Example

end Executor
