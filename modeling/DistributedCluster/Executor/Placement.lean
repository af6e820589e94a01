import DistributedCluster.Executor.Discipline
import DistributedCluster.Storage.Placement
/-!
# Readers find what is stored

Keys and tasks lie in the partition that readers compute from them.
-/

namespace Executor

open Async

/-- In every run of the map and of the queue, what a node stores lies in the
partition of its key or id and in no other, and local reads and claims find it. -/
theorem placement {K V : Type} [DecidableEq K] [Key K] [Json V] (cfg : MapConfig) (net : Network) :
    (∀ s : MapCluster K V, DistributedMap.Reachable cfg net s → ∀ n p key value, s.stored n p key = some value →
      p = cfg.partition_of key ∧ (∀ p', s.stored n p' key ≠ none → p' = p) ∧
      ∀ found s', Runs (MapSem cfg net) Eq (DistributedMap.get_local cfg n key) s found s' → found = some value) ∧
    ∀ s : QueueCluster, Reachable cfg net s → ∀ n p id entry, s.task n p id = some entry →
      p = partition_of cfg id ∧ (∀ p', s.task n p' id ≠ none → p' = p) ∧
      (∀ found s', Runs (QueueSem cfg net) Eq (get_task_local cfg n id) s found s' → found = some entry) ∧
      ∀ claimed s', Runs (QueueSem cfg net) Eq (try_claim_task cfg n id) s claimed s' →
        claimed = .ok (decide (entry.status = .Pending)) ∧
        (entry.status = .Pending → ∃ running, s'.task n p id = some running ∧ running.status = .Running ∧
          running.assigned_to = some n) := by
  refine ⟨fun s hs n p key value hstored => ?_, fun s hs n p id entry hentry => ?_⟩
  · have hplaced := DistributedMap.placed_of_reachable hs
    obtain rfl := hplaced.stored n p key value hstored
    refine ⟨rfl, fun p' hp' => ?_, fun found s' hrun => ?_⟩
    · obtain ⟨value', hvalue'⟩ := Option.ne_none_iff_exists'.1 hp'
      exact hplaced.stored n p' key value' hvalue'
    · obtain ⟨_, x, _, rfl, ⟨rfl, rfl⟩, hdone⟩ := runs_call.1 hrun
      rw [(runs_done.1 hdone).1]
      exact hstored
  · obtain rfl := (stored_of_reachable hs hentry).1
    refine ⟨rfl, fun p' hp' => ?_, fun found s' hrun => ?_, fun claimed s' hrun => ?_⟩
    · obtain ⟨entry', hentry'⟩ := Option.ne_none_iff_exists'.1 hp'
      exact (stored_of_reachable hs hentry').1
    · obtain ⟨_, x, _, rfl, ⟨rfl, rfl⟩, hdone⟩ := runs_call.1 hrun
      rw [(runs_done.1 hdone).1]
      exact hentry
    · obtain ⟨_, x, s₂, rfl, hclaim, hdone⟩ := runs_call.1 hrun
      obtain ⟨rfl, rfl⟩ := runs_done.1 hdone
      simp only [QueueSem, QueueCluster.claim, hentry] at hclaim
      by_cases hpending : entry.status = .Pending
      · rw [if_neg (not_not.2 hpending)] at hclaim
        cases hclaim
        refine ⟨by rw [decide_eq_true hpending], fun _ =>
          ⟨{ entry with status := .Running, assigned_to := some n, lease_expires := some (s.clock n + 30000) }, ?_, rfl, rfl⟩⟩
        rw [QueueCluster.task_put_task, if_pos ⟨rfl, rfl, rfl⟩]
      · rw [if_pos hpending] at hclaim
        cases hclaim
        exact ⟨by rw [decide_eq_false hpending], fun h => absurd h hpending⟩

section Example

open CompactJson

/-- A put at node b that was forwarded to node a. -/
def put_forwarded : Unit × MapCluster String Bool :=
  exec (MapInt (answered pair_cfg)) (DistributedMap.unattended (DistributedMap.put pair_cfg node_b "k" true))
    (.empty (demo_view pair))

theorem reachable_put_forwarded : DistributedMap.Reachable pair_cfg .reliable put_forwarded.2 := by
  have hstart : DistributedMap.MapSteps pair_cfg .reliable (MapCluster.empty (demo_view pair), [])
      (MapCluster.empty (demo_view pair), [(.put node_b "k" true, _)]) := .single (.spawn _ _ (.put node_b "k" true))
  exact ⟨_, _, hstart.trans (Pool.steps_of_runs (S := fun _ : DistributedMap.Job String Bool => MapSem pair_cfg .reliable)
    (exec_runs (MapInt_sem (allows_answered .reliable)) _ _) [] [])⟩

theorem placement_put_forwarded : ∀ found s', Runs (MapSem pair_cfg .reliable) Eq
    (DistributedMap.get_local pair_cfg node_a "k") put_forwarded.2 found s' → found = some true := by
  have hstored : put_forwarded.2.stored node_a (pair_cfg.partition_of "k") "k" = some true := by decide +kernel
  exact ((placement pair_cfg .reliable).1 _ reachable_put_forwarded node_a _ "k" true hstored).2.2

end Example

end Executor
