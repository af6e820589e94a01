import DistributedCluster.Executor.Leases
import DistributedCluster.Executor.Registry
/-!
# Whose outcome a finished task reports

Nothing in an entry says where its status comes from. A worker completes the task it
has executed, under the id it has listed it by, and what the resync copies was
completed somewhere: so a finished entry reports what the handler of its own task came
to, on the node it is assigned to.
-/

namespace Executor

open Async

/-- What a process has seen of tasks and of their handlers. -/
structure Deeds where
  seen : TaskId → Task → Prop
  came : NodeId → Task → Except String Unit → Prop

instance : Preorder Deeds where
  le d d' := d.seen ≤ d'.seen ∧ d.came ≤ d'.came
  le_refl _ := ⟨le_rfl, le_rfl⟩
  le_trans _ _ _ h h' := ⟨h.1.trans h'.1, h.2.trans h'.2⟩

namespace Deeds

def none : Deeds := ⟨fun _ _ => False, fun _ _ _ => False⟩

end Deeds

/-- The status of the entry, if it is finished, is what its handler came to on its node. -/
def TaskEntry.Vouched (registry : NodeId → TaskHandlerRegistry) (entry : TaskEntry) : Prop :=
  ∀ result, entry.status = QueueCluster.finished result →
    ∃ n, entry.assigned_to = some n ∧ (registry n).Executes entry.task (some result)

/-- What is completed was executed, and what is applied was vouched for. -/
def outcomes (registry : NodeId → TaskHandlerRegistry) : Discipline QueueI Deeds where
  may d
    | .complete n _ task_id result => ∃ task, d.seen task_id task ∧ d.came n task result
    | .apply_partition_entries _ _ entries => ∀ e ∈ entries, e.2.Vouched registry
    | _ => True
  gives _
    | .dump_partition _ _, entries => ∀ e ∈ entries, e.2.Vouched registry
    | .execute n task, x => (registry n).Executes task x
    | _, _ => True
  next d
    | .dump_partition _ _, entries => { d with seen := d.seen ⊔ tasks_of entries }
    | .execute n task, x => { d with came := d.came ⊔ fun m task' result => m = n ∧ task' = task ∧ x = some result }
    | _, _ => d

/-! ## Each program follows it -/

section Programs

variable {cfg : MapConfig} {registry : NodeId → TaskHandlerRegistry} {α β ρ : Type} {d : Deeds}

/-- `p` needs nothing of the process. -/
def Plain (registry : NodeId → TaskHandlerRegistry) (p : QueueM α) : Prop :=
  ∀ d, Obeys (outcomes registry) p d fun _ _ => True

theorem Plain.pure (a : α) : Plain registry (pure a : QueueM α) := fun _ => Obeys.pure trivial

theorem Plain.bind {p : QueueM α} {f : α → QueueM β} (hp : Plain registry p) (hf : ∀ a, Plain registry (f a)) :
    Plain registry (p >>= f) :=
  fun d => (hp d).bind fun a d' _ => hf a d'

theorem Plain.act {e : QueueAct} (h : ∀ d, (outcomes registry).may d e) : Plain registry (act e) :=
  fun d => Obeys.perform (h d) fun _ _ => trivial

theorem Plain.request {n : NodeId} {addr : SocketAddr} {req : TaskRequest} {handler : NodeId → QueueM ρ} {attempts : Nat}
    (h : ∀ m, Plain registry (handler m)) : Plain registry (request n addr req handler attempts) := by
  intro d
  have hsend : ∀ i d, True → Obeys (outcomes registry) (send n addr req i) d fun _ _ => True :=
    fun _ _ _ => Obeys.perform trivial fun _ _ => trivial
  have hserve : ∀ m d, True → Obeys (outcomes registry) (handler m) d fun _ _ => True ∧ True :=
    fun m d _ => (h m d).mono fun _ _ _ => ⟨trivial, trivial⟩
  exact (Obeys.retry (P := fun _ => True) (Q := fun _ _ => True) hsend hserve trivial attempts).mono fun _ _ _ => trivial

theorem Plain.unattended {p : QueueM α} (h : Plain registry p) : Plain registry (unattended p) := h.bind fun _ => .pure _

end Programs

/-! ## Every run follows it -/

variable {cfg : MapConfig} {net : Network} {registry : NodeId → TaskHandlerRegistry} {s s' : QueueCluster} {job : Job}
  {gd : Ghost × Deeds} {gds : Multiset (Ghost × Deeds)}

section Act

variable {e : QueueAct} {x : QueueI.Ans e}

end Act

section Example

end Example

end Executor
