import DistributedCluster.Executor.Acceptance
import DistributedCluster.Executor.Conduct
/-!
# Recovery

After a crash the survivors share a smaller ring and resync. The new primary of a
partition pulls only while it has nothing of it, and only from its first backup.
-/

namespace Executor

open Async

variable {cfg : MapConfig} {ring : NodeRing NodeId} {n m primary : NodeId} {p q : Nat} {id : TaskId} {s s' : QueueCluster}
  {l : QueuePool} {c c' : QueueCluster × QueuePool} {entries : List (TaskId × TaskEntry)}

/-- The nodes agree, and `Kept` says only which tasks are kept where. -/
structure Counts (cfg : MapConfig) (ring : NodeRing NodeId) (Inv : QueueCluster → Prop) : Prop where
  view : ∀ s, Inv s → Agreed cfg ring s.view
  same : ∀ s s', s'.view = s.view → (∀ m q id, (s'.task m q id).isSome = (s.task m q id).isSome) → Inv s → Inv s'

variable {Inv : QueueCluster → Prop}

theorem Counts.watches (h : Counts cfg ring Inv) : Watches cfg ring (fun _ _ _ => True) Inv := by
  refine ⟨h.view, fun s s' hview hnode _ => h.same s s' hview fun m q id => ?_, fun s n addr req _ => ?_⟩
  · rw [QueueCluster.task, hnode, QueueCluster.task]
  · exact h.same s (s.send n addr req) rfl fun _ _ _ => rfl

theorem Counts.kept (h : Counts cfg ring Inv) : ∀ s s' : QueueCluster, s'.view = s.view → (∀ y ∈ s'.sent, y ∈ s.sent) →
    (∀ m q id, (s'.task m q id).isSome = (s.task m q id).isSome) → Inv s → Inv s' :=
  fun s s' hview _ => h.same s s' hview

theorem task_of_apply_other (h : ¬ (m = n ∧ p = q)) (entries : List (TaskId × TaskEntry)) :
    (s.apply_partition_entries n q entries).task m p id = s.task m p id := by
  rw [QueueCluster.apply_partition_entries, QueueCluster.task_set_partition, if_neg h]

theorem isSome_of_apply {entry : TaskEntry} (h : (id, entry) ∈ entries) :
    ((s.apply_partition_entries n p entries).task n p id).isSome := by
  rw [QueueCluster.apply_partition_entries, QueueCluster.task_set_partition, if_pos ⟨rfl, rfl⟩]
  exact QueueCluster.isSome_insert_all (.inr h)

theorem has_partition_congr (h : ∀ id, (s'.task n p id).isSome = (s.task n p id).isSome) :
    s'.has_partition n p = s.has_partition n p := by
  rw [Bool.eq_iff_iff, QueueCluster.has_partition_iff, QueueCluster.has_partition_iff]
  simp only [h]

theorem has_partition_of_apply_other (h : ¬ (m = n ∧ p = q)) (entries : List (TaskId × TaskEntry)) :
    (s.apply_partition_entries n q entries).has_partition m p = s.has_partition m p :=
  has_partition_congr fun _ => by rw [task_of_apply_other h]

/-! ## A task in reach -/

/-- The first backup keeps the task; the primary keeps it too, or has nothing of the
partition. -/
structure InReach (cfg : MapConfig) (ring : NodeRing NodeId) (primary backup : NodeId) (id : TaskId) (s : QueueCluster) :
    Prop where
  view : Agreed cfg ring s.view
  backup : (s.task backup (partition_of cfg id) id).isSome
  primary : (s.task primary (partition_of cfg id) id).isSome ∨ s.has_partition primary (partition_of cfg id) = false

section Pull

variable {backup : NodeId}

/-- A transfer of the partition to the primary must bring the task. -/
theorem InReach.apply (hs : InReach cfg ring primary backup id s)
    (hentries : q = partition_of cfg id → n = primary → ∃ entry, (id, entry) ∈ entries) :
    InReach cfg ring primary backup id (s.apply_partition_entries n q entries) := by
  have hact : QueueSem cfg .reliable (.apply_partition_entries n q entries) s () (s.apply_partition_entries n q entries) := rfl
  refine ⟨hs.view, (act_grown hact).kept _ _ _ hs.backup, ?_⟩
  by_cases hsame : primary = n ∧ partition_of cfg id = q
  · obtain ⟨rfl, rfl⟩ := hsame
    obtain ⟨entry, hmem⟩ := hentries rfl rfl
    exact .inl (isSome_of_apply hmem)
  · rw [task_of_apply_other hsame, has_partition_of_apply_other hsame]
    exact hs.primary

variable (hprimary : (cfg.owners ring (partition_of cfg id)).head? = some primary)
  (hbackup : (cfg.owners ring (partition_of cfg id))[1]? = some backup)
include hprimary hbackup

end Pull

/-! ## A task out of reach -/

section Lost

/-- The primary keeps other tasks of the partition, but not this one. -/
structure PassedOver (cfg : MapConfig) (ring : NodeRing NodeId) (primary : NodeId) (id : TaskId) (s : QueueCluster) : Prop where
  view : Agreed cfg ring s.view
  absent : s.task primary (partition_of cfg id) id = none
  others : s.has_partition primary (partition_of cfg id) = true

variable (hprimary : (cfg.owners ring (partition_of cfg id)).head? = some primary)
include hprimary

end Lost

end Executor
