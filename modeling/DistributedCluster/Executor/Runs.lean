import DistributedCluster.Executor.Queue
/-!
# Runs of the queue

Workers, submissions, resyncs and late requests run beside each other on all
nodes, while views and clocks change and lease renewals go on. An entry, once
stored, stays with its task; only a claim, a renewal or a completion on its own
node changes it.
-/

namespace Executor

open Async

/-- What a process is for. -/
inductive Job
  /-- a caller on node `n` submits a task and waits for the answer -/
  | submit (n : NodeId) (task : Task)
  /-- a client posts a task to node `n` -/
  | submission (n : NodeId) (task : Task)
  /-- one pass of a worker -/
  | worker (n : NodeId)
  /-- one pass of the resync loop -/
  | resync (n : NodeId)
  /-- a request arrives at node `m` once more -/
  | arrival (m : NodeId) (req : TaskRequest)

abbrev QueuePool := Pool Job QueueI (Option (Result TaskId))

/-- A program whose result nobody waits for. -/
def unattended {α : Type} (p : QueueM α) : QueueM (Option (Result TaskId)) := do
  let _ ← p
  pure none

/-- What node `m` does when the request arrives. -/
def serve (cfg : MapConfig) (m : NodeId) : TaskRequest → QueueM (Option (Result TaskId))
  | .internal_submit req => unattended (handle_internal_submit_task cfg m req)
  | .replicate req => unattended (handle_replicate_task m req)
  | .partition_dump partition => unattended (handle_task_partition_dump m partition)
  | .get_task key => unattended (route_get_task_internal cfg m key)

def awaited (cfg : MapConfig) (n : NodeId) (task : Task) : QueueM (Option (Result TaskId)) := do
  let answer ← submit cfg n task
  pure (some answer)

/-- What may start at a node. A request may arrive again long after it was sent. -/
inductive Started (cfg : MapConfig) : QueueCluster → QueuePool → Job → QueueM (Option (Result TaskId)) → Prop
  | submit {s l} (n : NodeId) (task : Task) : Started cfg s l (.submit n task) (awaited cfg n task)
  | submission {s l} (n : NodeId) (task : Task) :
    Started cfg s l (.submission n task) (unattended (handle_submit_task cfg n task))
  | worker {s l} (n : NodeId) : Started cfg s l (.worker n) (unattended (worker_loop cfg n))
  | resync {s l} (n : NodeId) : Started cfg s l (.resync n) (unattended (sync_queue_partitions cfg n))
  | arrival {s l n addr req m} : (n, addr, req) ∈ s.sent → cfg.host n addr = some m →
    Started cfg s l (.arrival m req) (serve cfg m req)

/-- One round of a renewal loop, which ends when the task is not running. -/
def renewal_round (cfg : MapConfig) (s : QueueCluster) (n : NodeId) (task_id : TaskId) : QueueCluster :=
  match s.renew n (partition_of cfg task_id) task_id with
  | (.ok _, s') => s'
  | (.error _, s') => s'.abort_renewal n task_id

/-- What happens beside the programs while the membership is stable. -/
inductive Beside (cfg : MapConfig) : QueueCluster → QueuePool → QueueCluster → Prop
  | tick {s l} (clock : NodeId → Nat) : Beside cfg s l { s with clock }
  | renewal {s l n task_id} : task_id ∈ (s.node n).renewals → Beside cfg s l (renewal_round cfg s n task_id)

/-- Nodes come and go, as long as the views are as `φ` says. -/
inductive Around (cfg : MapConfig) (φ : (NodeId → MembershipService) → Prop) :
    QueueCluster → QueuePool → QueueCluster → Prop
  | beside {s l s'} : Beside cfg s l s' → Around cfg φ s l s'
  | membership {s l} (view : NodeId → MembershipService) : φ view → Around cfg φ s l { s with view }

/-- Runs in which the views are as `φ` says. -/
abbrev StepsWithin (cfg : MapConfig) (net : Network) (φ : (NodeId → MembershipService) → Prop) :
    QueueCluster × QueuePool → QueueCluster × QueuePool → Prop :=
  Pool.Steps (fun _ => QueueSem cfg net) (Started cfg) (Around cfg φ)

abbrev Steps (cfg : MapConfig) (net : Network) : QueueCluster × QueuePool → QueueCluster × QueuePool → Prop :=
  StepsWithin cfg net fun _ => True

/-- The states of runs that start with an empty queue. -/
def Reachable (cfg : MapConfig) (net : Network) (s : QueueCluster) : Prop :=
  ∃ view clock l, Steps cfg net (.empty view clock, []) (s, l)

section Alone

variable {cfg : MapConfig} {net : Network} {φ : (NodeId → MembershipService) → Prop}
  {int : (e : QueueAct) → QueueCluster → QueueI.Ans e × QueueCluster} {c : QueueCluster × QueuePool} {s : QueueCluster}
  {l : QueuePool} {job : Job} {p : QueueM (Option (Result TaskId))}

/-- One process starts and runs to its end while the others wait. -/
theorem steps_to_end (hint : ∀ e s, QueueSem cfg net e s (int e s).1 (int e s).2) (h : StepsWithin cfg net φ c (s, l))
    (hstart : Started cfg s l job p) :
    StepsWithin cfg net φ c ((exec int p s).2, (job, .done (exec int p s).1) :: l) := by
  have hrun : StepsWithin cfg net φ (s, (job, p) :: l) ((exec int p s).2, (job, .done (exec int p s).1) :: l) :=
    Pool.steps_of_runs (S := fun _ : Job => QueueSem cfg net) (exec_runs hint p s) [] l
  exact (h.tail (.spawn job p hstart)).trans hrun

/-- Then it is gone. -/
theorem steps_alone (hint : ∀ e s, QueueSem cfg net e s (int e s).1 (int e s).2) (h : StepsWithin cfg net φ c (s, l))
    (hstart : Started cfg s l job p) : StepsWithin cfg net φ c ((exec int p s).2, l) := by
  have hgone : Pool.Step (fun _ => QueueSem cfg net) (Started cfg) (Around cfg φ)
      ((exec int p s).2, [] ++ (job, .done (exec int p s).1) :: l) ((exec int p s).2, [] ++ l) := .retire job _
  exact (steps_to_end hint h hstart).tail hgone

end Alone

/-! ## What becomes of an entry -/

variable {cfg : MapConfig} {net : Network} {s s' : QueueCluster} {n m : NodeId} {p partition : Nat} {id task_id : TaskId}

theorem task_spawn_renewal (m : NodeId) (p : Nat) (id : TaskId) :
    (s.spawn_renewal n task_id).task m p id = s.task m p id := by
  by_cases hm : m = n
  · subst hm
    simp [QueueCluster.task, QueueCluster.spawn_renewal]
  · simp [QueueCluster.task, QueueCluster.spawn_renewal, hm]

theorem task_abort_renewal (m : NodeId) (p : Nat) (id : TaskId) :
    (s.abort_renewal n task_id).task m p id = s.task m p id := by
  by_cases hm : m = n
  · subst hm
    simp [QueueCluster.task, QueueCluster.abort_renewal]
  · simp [QueueCluster.task, QueueCluster.abort_renewal, hm]

/-- What an action makes of the entry that node `n` keeps for a task. -/
inductive Effect (e : QueueAct) (n : NodeId) (p : Nat) (id : TaskId) : TaskEntry → TaskEntry → Prop
  | kept (entry : TaskEntry) : Effect e n p id entry entry
  | claimed {entry : TaskEntry} (he : e = .claim n p id) (h : entry.status = .Pending) (lease : Nat) :
    Effect e n p id entry { entry with status := .Running, assigned_to := some n, lease_expires := some lease }
  | completed (entry : TaskEntry) {result : Except String Unit} (he : e = .complete n p id result) :
    Effect e n p id entry { entry with status := QueueCluster.finished result, lease_expires := none }

theorem Effect.task {e : QueueAct} {entry entry' : TaskEntry} (h : Effect e n p id entry entry') :
    entry'.task = entry.task := by
  cases h <;> rfl

theorem entry_insert_all {entries : List (TaskId × TaskEntry)} {tasks : DashMap TaskId TaskEntry} {entry : TaskEntry}
    (h : tasks.lookup id = some entry) : (entries.foldl insert_new tasks).lookup id = some entry := by
  induction entries generalizing tasks with
  | nil => exact h
  | cons e entries ih => exact ih (by rw [QueueCluster.lookup_insert_new, h, Option.some_or])

theorem entry_apply {entries : List (TaskId × TaskEntry)} {entry : TaskEntry} (h : s.task n p id = some entry) :
    (s.apply_partition_entries m partition entries).task n p id = some entry := by
  rw [QueueCluster.apply_partition_entries, QueueCluster.task_set_partition]
  split
  · rename_i hmp
    obtain ⟨rfl, rfl⟩ := hmp
    exact entry_insert_all (QueueCluster.lookup_partition_map.trans h)
  · exact h

/-- An entry that is put where there is one. -/
theorem entry_put_task {old new entry : TaskEntry} {e : QueueAct} (h : s.task m partition task_id = some old)
    (hold : s.task n p id = some entry) (heffect : Effect e m partition task_id old new) :
    ∃ entry', (s.put_task m partition task_id new).task n p id = some entry' ∧ Effect e n p id entry entry' := by
  rw [QueueCluster.task_put_task]
  split
  · rename_i hsame
    obtain ⟨rfl, rfl, rfl⟩ := hsame
    rw [h] at hold
    cases hold
    exact ⟨new, rfl, heffect⟩
  · exact ⟨entry, hold, .kept entry⟩

/-- What an action does to what the nodes keep. -/
inductive NodeStep (s : QueueCluster) : QueueAct → QueueCluster → Prop
  | same {e : QueueAct} {s' : QueueCluster} (h : s'.node = s.node) : NodeStep s e s'
  | stored (m : NodeId) (partition : Nat) (task_id : TaskId) (entry : TaskEntry) :
    NodeStep s (.store_local m partition task_id entry) (s.store_local m partition task_id entry)
  | applied (m : NodeId) (partition : Nat) (entries : List (TaskId × TaskEntry)) :
    NodeStep s (.apply_partition_entries m partition entries) (s.apply_partition_entries m partition entries)
  | claimed {m : NodeId} {partition : Nat} {task_id : TaskId} {entry : TaskEntry}
    (h : s.task m partition task_id = some entry) (hpending : entry.status = .Pending) :
    NodeStep s (.claim m partition task_id) (s.put_task m partition task_id
      { entry with status := .Running, assigned_to := some m, lease_expires := some (s.clock m + 30000) })
  | completed {m : NodeId} {partition : Nat} {task_id : TaskId} {entry : TaskEntry} (result : Except String Unit)
    (h : s.task m partition task_id = some entry) :
    NodeStep s (.complete m partition task_id result) (s.put_task m partition task_id
      { entry with status := QueueCluster.finished result, lease_expires := none })
  | spawned (m : NodeId) (task_id : TaskId) : NodeStep s (.spawn_renewal m task_id) (s.spawn_renewal m task_id)
  | aborted (m : NodeId) (task_id : TaskId) : NodeStep s (.abort_renewal m task_id) (s.abort_renewal m task_id)

theorem node_step {e : QueueAct} {x : QueueI.Ans e} (h : QueueSem cfg net e s x s') : NodeStep s e s' := by
  cases e with
  | membership m | now_ms m | lookup m p id | dump_partition m p | has_partition m p | iterate m set =>
    exact .same (by rw [h.2])
  | execute m task => exact .same (by rw [show s' = s from h])
  | new_task_id m =>
    obtain ⟨-, rfl⟩ := h
    exact .same rfl
  | send m addr req i =>
    obtain ⟨-, rfl⟩ := h
    exact .same rfl
  | store_local m p id entry =>
    obtain rfl : s' = s.store_local m p id entry := h
    exact .stored m p id entry
  | apply_partition_entries m p entries =>
    obtain rfl : s' = s.apply_partition_entries m p entries := h
    exact .applied m p entries
  | claim m p id =>
    obtain rfl : s' = (s.claim m p id).2 := congrArg Prod.snd h
    rcases QueueCluster.claim_cases s m p id with hclaim | ⟨entry, hentry, hpending, hclaim⟩
    · exact .same (by rw [hclaim])
    · rw [hclaim]
      exact .claimed hentry hpending
  | complete m p id result =>
    obtain rfl : s' = (s.complete m p id result).2 := congrArg Prod.snd h
    unfold QueueCluster.complete
    split
    · exact .completed result ‹_›
    · exact .same rfl
  | spawn_renewal m task_id =>
    obtain rfl : s' = s.spawn_renewal m task_id := h
    exact .spawned m task_id
  | abort_renewal m task_id =>
    obtain rfl : s' = s.abort_renewal m task_id := h
    exact .aborted m task_id

theorem task_of_node (h : s'.node = s.node) (n : NodeId) (p : Nat) (id : TaskId) : s'.task n p id = s.task n p id := by
  rw [QueueCluster.task, h, QueueCluster.task]

/-- An entry stays, and only its node's claim or completion changes it. -/
theorem entry_effect {e : QueueAct} {x : QueueI.Ans e} (h : QueueSem cfg net e s x s') {entry : TaskEntry}
    (hold : s.task n p id = some entry) : ∃ entry', s'.task n p id = some entry' ∧ Effect e n p id entry entry' := by
  cases node_step h with
  | same hnode => exact ⟨entry, (task_of_node hnode n p id).trans hold, .kept entry⟩
  | stored m partition task_id new =>
    refine ⟨entry, ?_, .kept entry⟩
    rw [QueueCluster.task_store_local, hold]
    simp
  | applied m partition entries => exact ⟨entry, entry_apply hold, .kept entry⟩
  | claimed hentry hpending => exact entry_put_task hentry hold (.claimed rfl hpending _)
  | completed result hentry => exact entry_put_task hentry hold (.completed _ rfl)
  | spawned m task_id => exact ⟨entry, (task_spawn_renewal n p id).trans hold, .kept entry⟩
  | aborted m task_id => exact ⟨entry, (task_abort_renewal n p id).trans hold, .kept entry⟩

/-- A new entry is one that is stored, or one of those a resync applies. -/
theorem entry_origin {e : QueueAct} {x : QueueI.Ans e} (h : QueueSem cfg net e s x s') {entry : TaskEntry}
    (hold : s.task n p id = none) (hnew : s'.task n p id = some entry) :
    e = .store_local n p id entry ∨ ∃ entries, e = .apply_partition_entries n p entries ∧ (id, entry) ∈ entries := by
  have absent : s'.task n p id = s.task n p id → False := by
    intro hsame
    rw [hsame, hold] at hnew
    cases hnew
  -- an entry that is replaced is not the new one
  have put : ∀ {m partition task_id old new}, s.task m partition task_id = some old →
      (s.put_task m partition task_id new).task n p id = s.task n p id := by
    intro m partition task_id old new hentry
    rw [QueueCluster.task_put_task, if_neg]
    rintro ⟨rfl, rfl, rfl⟩
    rw [hold] at hentry
    cases hentry
  cases node_step h with
  | same hnode => exact (absent (task_of_node hnode n p id)).elim
  | stored m partition task_id new =>
    rw [QueueCluster.task_store_local] at hnew
    split at hnew
    · rename_i hsame
      obtain ⟨rfl, rfl, rfl⟩ := hsame
      rw [hold, Option.none_or] at hnew
      cases hnew
      exact .inl rfl
    · rw [hold] at hnew
      cases hnew
  | applied m partition entries =>
    rw [QueueCluster.apply_partition_entries, QueueCluster.task_set_partition] at hnew
    split at hnew
    · rename_i hmp
      obtain ⟨rfl, rfl⟩ := hmp
      rcases QueueCluster.lookup_insert_all entries _ hnew with hkept | hmem
      · rw [QueueCluster.lookup_partition_map, hold] at hkept
        cases hkept
      · exact .inr ⟨entries, rfl, hmem⟩
    · rw [hold] at hnew
      cases hnew
  | claimed hentry _ => exact (absent (put hentry)).elim
  | completed result hentry => exact (absent (put hentry)).elim
  | spawned m task_id => exact (absent (task_spawn_renewal n p id)).elim
  | aborted m task_id => exact (absent (task_abort_renewal n p id)).elim

/-- What an action leaves alone, and what it may send and use. -/
theorem act_frame {e : QueueAct} {x : QueueI.Ans e} (h : QueueSem cfg net e s x s') :
    s'.view = s.view ∧ s.used ⊆ s'.used ∧
      ∀ y ∈ s'.sent, y ∈ s.sent ∨ ∃ i, e = .send y.1 y.2.1 y.2.2 i := by
  have same : s'.view = s.view → s'.used = s.used → s'.sent = s.sent → s'.view = s.view ∧ s.used ⊆ s'.used ∧
      ∀ y ∈ s'.sent, y ∈ s.sent ∨ ∃ i, e = .send y.1 y.2.1 y.2.2 i :=
    fun hview hused hsent => ⟨hview, hused ▸ Finset.Subset.refl _, fun y hy => .inl (hsent ▸ hy)⟩
  cases e with
  | membership m => exact same (by rw [h.2]) (by rw [h.2]) (by rw [h.2])
  | new_task_id m =>
    obtain ⟨-, rfl⟩ := h
    exact ⟨rfl, Finset.subset_insert _ _, fun y hy => .inl hy⟩
  | now_ms m => exact same (by rw [h.2]) (by rw [h.2]) (by rw [h.2])
  | lookup m partition task_id => exact same (by rw [h.2]) (by rw [h.2]) (by rw [h.2])
  | store_local m partition task_id new =>
    obtain rfl : s' = s.store_local m partition task_id new := h
    exact same rfl rfl rfl
  | apply_partition_entries m partition entries =>
    obtain rfl : s' = s.apply_partition_entries m partition entries := h
    exact same rfl rfl rfl
  | dump_partition m partition => exact same (by rw [h.2]) (by rw [h.2]) (by rw [h.2])
  | has_partition m partition => exact same (by rw [h.2]) (by rw [h.2]) (by rw [h.2])
  | claim m partition task_id =>
    have hs' : s' = (s.claim m partition task_id).2 := congrArg Prod.snd h
    rcases QueueCluster.claim_cases s m partition task_id with hclaim | ⟨entry, -, -, hclaim⟩
    · rw [hclaim] at hs'
      exact same (by rw [hs']) (by rw [hs']) (by rw [hs'])
    · rw [hclaim] at hs'
      subst hs'
      exact same rfl rfl rfl
  | complete m partition task_id result =>
    obtain rfl : s' = (s.complete m partition task_id result).2 := congrArg Prod.snd h
    unfold QueueCluster.complete
    repeat' split
    all_goals exact ⟨rfl, Finset.Subset.refl _, fun y hy => .inl hy⟩
  | spawn_renewal m task_id =>
    obtain rfl : s' = s.spawn_renewal m task_id := h
    exact same rfl rfl rfl
  | abort_renewal m task_id =>
    obtain rfl : s' = s.abort_renewal m task_id := h
    exact same rfl rfl rfl
  | execute m task => exact same (by rw [show s' = s from h]) (by rw [show s' = s from h]) (by rw [show s' = s from h])
  | iterate m set => exact same (by rw [h.2]) (by rw [h.2]) (by rw [h.2])
  | send m addr req i =>
    obtain ⟨-, rfl⟩ := h
    refine ⟨rfl, Finset.Subset.refl _, fun y hy => ?_⟩
    rcases List.mem_cons.1 hy with rfl | hy
    · exact .inr ⟨i, rfl⟩
    · exact .inl hy

theorem renewals_set_partition (tasks : DashMap TaskId TaskEntry) :
    ((s.set_partition n partition tasks).node m).renewals = (s.node m).renewals := by
  by_cases hm : m = n
  · subst hm
    simp [QueueCluster.set_partition]
  · simp [QueueCluster.set_partition, hm]

theorem renewals_abort_renewal (hne : ¬ (m = n ∧ id = task_id)) (h : id ∈ (s.node m).renewals) :
    id ∈ ((s.abort_renewal n task_id).node m).renewals := by
  by_cases hm : m = n
  · subst hm
    have hid : id ≠ task_id := fun hid => hne ⟨rfl, hid⟩
    simp [QueueCluster.abort_renewal, List.mem_erase_of_ne hid, h]
  · simp [QueueCluster.abort_renewal, hm, h]

/-- A renewal loop runs on, unless it is told to stop. -/
theorem renewals_act {e : QueueAct} {x : QueueI.Ans e} (h : QueueSem cfg net e s x s') (hne : e ≠ .abort_renewal n id)
    (hmem : id ∈ (s.node n).renewals) : id ∈ (s'.node n).renewals := by
  cases node_step h with
  | same hnode => rwa [hnode]
  | stored | applied | claimed | completed => exact (renewals_set_partition _).symm ▸ hmem
  | spawned m task_id =>
    by_cases hm : n = m
    · subst hm
      simp [QueueCluster.spawn_renewal, hmem]
    · simp [QueueCluster.spawn_renewal, hm, hmem]
  | aborted m task_id =>
    refine renewals_abort_renewal ?_ hmem
    rintro ⟨rfl, rfl⟩
    exact hne rfl

/-- What a renewal does to an entry of its node, and what it leaves alone. -/
theorem renewal_round_entry (cfg : MapConfig) (s : QueueCluster) (m : NodeId) (task_id : TaskId) :
    (renewal_round cfg s m task_id).sent = s.sent ∧ (renewal_round cfg s m task_id).used = s.used ∧
      (renewal_round cfg s m task_id).view = s.view ∧
      ∀ n p id, (renewal_round cfg s m task_id).task n p id = s.task n p id ∨
        ∃ entry lease, s.task n p id = some entry ∧ entry.status = .Running ∧
          (renewal_round cfg s m task_id).task n p id = some { entry with lease_expires := some lease } := by
  unfold renewal_round QueueCluster.renew
  cases hentry : s.task m (partition_of cfg task_id) task_id with
  | none =>
    dsimp only
    exact ⟨rfl, rfl, rfl, fun n p id => .inl (task_abort_renewal n p id)⟩
  | some entry =>
    dsimp only
    by_cases hrun : entry.status = .Running
    · rw [if_pos hrun]
      refine ⟨rfl, rfl, rfl, fun n p id => ?_⟩
      rw [QueueCluster.task_put_task]
      split
      · rename_i hsame
        obtain ⟨rfl, rfl, rfl⟩ := hsame
        exact .inr ⟨entry, _, hentry, hrun, rfl⟩
      · exact .inl rfl
    · rw [if_neg hrun]
      exact ⟨rfl, rfl, rfl, fun n p id => .inl (task_abort_renewal n p id)⟩

/-- A round of a running task extends the lease to 30 s from then. -/
theorem renewal_round_running {entry : TaskEntry} (hentry : s.task n (partition_of cfg id) id = some entry)
    (hrun : entry.status = .Running) : renewal_round cfg s n id =
      s.put_task n (partition_of cfg id) id { entry with lease_expires := some (s.clock n + 30000) } := by
  unfold renewal_round QueueCluster.renew
  rw [hentry]
  dsimp only
  rw [if_pos hrun]

/-- A round ends no loop of a task that is running. -/
theorem renewal_round_keeps (hrun : ∃ entry, s.task n (partition_of cfg id) id = some entry ∧ entry.status = .Running)
    (h : id ∈ (s.node n).renewals) : id ∈ ((renewal_round cfg s m task_id).node n).renewals := by
  obtain ⟨entry, hentry, hst⟩ := hrun
  by_cases hsame : n = m ∧ id = task_id
  · obtain ⟨rfl, rfl⟩ := hsame
    rw [renewal_round_running hentry hst]
    exact (renewals_set_partition _).symm ▸ h
  · unfold renewal_round QueueCluster.renew
    cases s.task m (partition_of cfg task_id) task_id with
    | none => exact renewals_abort_renewal hsame h
    | some old =>
      dsimp only
      split
      · rename_i hrenew
        split at hrenew
        · cases hrenew
          exact (renewals_set_partition _).symm ▸ h
        · cases hrenew
      · rename_i hrenew
        split at hrenew
        · cases hrenew
        · cases hrenew
          exact renewals_abort_renewal hsame h

end Executor
