import Mathlib.Data.Multiset.Filter
import DistributedCluster.Executor.Runs
import DistributedCluster.Lib.Discipline
/-!
# The discipline of the queue's programs

Nothing in the queue checks that a task is completed by the worker that claimed
it, that what is stored lies in the partition of its id or that an id is used
for one task. The programs see to it, and this is what each of them may do.
-/

namespace Executor

open Async

/-- Nobody's yet, under a lease, or done. -/
def TaskEntry.WellFormed (entry : TaskEntry) : Prop :=
  match entry.status with
  | .Pending => entry.assigned_to = none ∧ entry.lease_expires = none
  | .Running => entry.assigned_to.isSome ∧ entry.lease_expires.isSome
  | .Completed | .Failed _ => entry.assigned_to.isSome ∧ entry.lease_expires = none

def TaskEntry.Unclaimed (entry : TaskEntry) : Prop :=
  entry.status = .Pending ∧ entry.assigned_to = none ∧ entry.lease_expires = none

theorem TaskEntry.Unclaimed.wellFormed {entry : TaskEntry} (h : entry.Unclaimed) : entry.WellFormed := by
  unfold TaskEntry.WellFormed
  rw [h.1]
  exact h.2

inductive Role
  | server
  /-- creates ids for `task` -/
  | submitter (task : Task)
  | worker
  /-- has claimed the task at node `n` and not completed it -/
  | holding (n : NodeId) (task_id : TaskId)
  /-- holds the task, and its lease is being renewed -/
  | renewing (n : NodeId) (task_id : TaskId)

/-- What a process has done so far: the tasks it knows by their ids, the
partitions it has seen node `n` lead, and the tasks it has seen claimed. -/
structure Ghost where
  role : Role
  knows : TaskId → Task → Prop
  leads : NodeId → Nat → Prop
  begun : TaskId → Prop

instance : Preorder Ghost where
  le g g' := g.role = g'.role ∧ g.knows ≤ g'.knows ∧ g.leads ≤ g'.leads ∧ g.begun ≤ g'.begun
  le_refl g := ⟨rfl, le_rfl, le_rfl, le_rfl⟩
  le_trans _ _ _ h h' := ⟨h.1.trans h'.1, h.2.1.trans h'.2.1, h.2.2.1.trans h'.2.2.1, h.2.2.2.trans h'.2.2.2⟩

namespace Ghost

def start (role : Role) : Ghost := ⟨role, fun _ _ => False, fun _ _ => False, fun _ => False⟩

def learn (g : Ghost) (facts : TaskId → Task → Prop) : Ghost := { g with knows := g.knows ⊔ facts }

def held (g : Ghost) : Option (NodeId × TaskId) :=
  match g.role with
  | .holding n task_id | .renewing n task_id => some (n, task_id)
  | _ => none

theorem held_of_holding {g : Ghost} {n : NodeId} {id : TaskId} (h : g.role = .holding n id) : g.held = some (n, id) := by
  unfold held
  rw [h]

theorem held_of_renewing {g : Ghost} {n : NodeId} {id : TaskId} (h : g.role = .renewing n id) : g.held = some (n, id) := by
  unfold held
  rw [h]

theorem le_learn (g : Ghost) (facts : TaskId → Task → Prop) : g ≤ g.learn facts := ⟨rfl, le_sup_left, le_rfl, le_rfl⟩

end Ghost

namespace TaskRequest

variable (cfg : MapConfig)

/-- What the request carries lies where its id says, and is an entry. -/
def Sound : TaskRequest → Prop
  | .internal_submit req => req.partition = partition_of cfg req.task_id
  | .replicate req => req.partition = partition_of cfg req.task_id ∧ req.entry.Unclaimed
  | .partition_dump _ | .get_task _ => True

/-- The request is about task `task`, of id `id`. -/
def Names (id : TaskId) (task : Task) : TaskRequest → Prop
  | .internal_submit req => req.task_id = id ∧ req.task = task
  | .replicate req => req.task_id = id ∧ req.entry.task = task
  | .partition_dump _ | .get_task _ => False

end TaskRequest

/-- The tasks of a list of entries. -/
def tasks_of (entries : List (TaskId × TaskEntry)) (id : TaskId) (task : Task) : Prop :=
  ∃ entry, (id, entry) ∈ entries ∧ entry.task = task

/-- The tasks of a list of entries that somebody has claimed. -/
def begun_in (entries : List (TaskId × TaskEntry)) (id : TaskId) : Prop :=
  ∃ entry, (id, entry) ∈ entries ∧ entry.status ≠ .Pending

/-- Entries that lie in the partition of their ids. -/
def SoundEntries (cfg : MapConfig) (partition : Nat) (entries : List (TaskId × TaskEntry)) : Prop :=
  ∀ e ∈ entries, partition = partition_of cfg e.1 ∧ e.2.WellFormed

/-- Entries of a dump that the process knows of. -/
def Seen (cfg : MapConfig) (partition : Nat) (entries : List (TaskId × TaskEntry)) (g : Ghost) : Prop :=
  SoundEntries cfg partition entries ∧ tasks_of entries ≤ g.knows ∧ begun_in entries ≤ g.begun

def Job.is_worker : Job → Prop
  | .worker _ => True
  | _ => False

/-- Which actions need something of the process. -/
def may (cfg : MapConfig) (job : Job) (g : Ghost) : QueueAct → Prop
  | .new_task_id _ => ∃ task, g.role = .submitter task
  | .store_local _ partition task_id entry =>
    partition = partition_of cfg task_id ∧ entry.Unclaimed ∧ g.knows task_id entry.task
  | .apply_partition_entries _ partition entries => Seen cfg partition entries g
  | .claim n partition task_id =>
    job.is_worker ∧ g.role = .worker ∧ partition = partition_of cfg task_id ∧ g.leads n partition
  | .complete n partition task_id _ =>
    job.is_worker ∧ g.role = .holding n task_id ∧ partition = partition_of cfg task_id
  | .spawn_renewal n task_id => g.role = .holding n task_id
  | .execute n _ => ∃ task_id, g.role = .renewing n task_id
  | .abort_renewal n task_id => g.role = .renewing n task_id
  | .send _ _ req _ => req.Sound cfg ∧ ∀ id task, req.Names id task → g.knows id task
  | _ => True

def gives (cfg : MapConfig) : (e : QueueAct) → QueueI.Ans e → Prop
  | .dump_partition _ partition, entries => SoundEntries cfg partition entries
  | _, _ => True

def next (cfg : MapConfig) (g : Ghost) : (e : QueueAct) → QueueI.Ans e → Ghost
  | .new_task_id _, task_id => g.learn fun id task => id = task_id ∧ g.role = .submitter task
  | .dump_partition _ _, entries => { g.learn (tasks_of entries) with begun := g.begun ⊔ begun_in entries }
  | .membership n, view =>
    { g with leads := g.leads ⊔ fun m p => m = n ∧ (cfg.partitioner.get_owners view p).head? = some n }
  | .claim n _ task_id, claimed => if claimed = true then { g with role := .holding n task_id } else g
  | .complete .., _ => { g with role := .worker }
  | .spawn_renewal n task_id, _ => { g with role := .renewing n task_id }
  | .abort_renewal n task_id, _ => { g with role := .holding n task_id }
  | _, _ => g

def discipline (cfg : MapConfig) (job : Job) : Discipline QueueI Ghost where
  may := may cfg job
  gives _ := gives cfg
  next := next cfg

/-! ## What every process keeps -/

/-- A stored entry, a request or a process gives the id this task. -/
def Named (s : QueueCluster) (gs : Multiset Ghost) (id : TaskId) (task : Task) : Prop :=
  (∃ n p entry, s.task n p id = some entry ∧ entry.task = task) ∨ (∃ x ∈ s.sent, x.2.2.Names id task) ∨
    ∃ g ∈ gs, g.knows id task

structure Sound (cfg : MapConfig) (s : QueueCluster) (gs : Multiset Ghost) : Prop where
  stored : ∀ n p id entry, s.task n p id = some entry → p = partition_of cfg id ∧ entry.WellFormed
  sent : ∀ x ∈ s.sent, x.2.2.Sound cfg
  /-- an id is for one task -/
  named : ∀ id task task', Named s gs id task → Named s gs id task' → task = task'
  used : ∀ id task, Named s gs id task → id.text ∈ s.used
  /-- a task that is held is running -/
  running : ∀ g ∈ gs, ∀ n id, g.held = some (n, id) →
    ∃ entry, s.task n (partition_of cfg id) id = some entry ∧ entry.status = .Running
  renewed : ∀ g ∈ gs, ∀ n id, g.role = .renewing n id → id ∈ (s.node n).renewals
  /-- a task is held once -/
  distinct : (gs.filterMap Ghost.held).Nodup

variable {cfg : MapConfig} {net : Network} {s s' : QueueCluster} {job : Job} {g : Ghost} {gs : Multiset Ghost}

theorem sound_empty (view : NodeId → MembershipService) (clock : NodeId → Nat) : Sound cfg (.empty view clock) 0 := by
  have hnone : ∀ id task, ¬ Named (.empty view clock) 0 id task := by
    rintro id task (⟨n, p, entry, h, -⟩ | ⟨x, h, -⟩ | ⟨g, h, -⟩)
    · cases h
    · cases h
    · exact Multiset.notMem_zero g h
  exact ⟨fun _ _ _ _ h => (by cases h), fun _ h => (by cases h), fun id task _ h => absurd h (hnone id task),
    fun id task h => absurd h (hnone id task), fun g h => absurd h (Multiset.notMem_zero g),
    fun g h => absurd h (Multiset.notMem_zero g), by rw [Multiset.filterMap_zero]; exact Multiset.nodup_zero⟩

theorem sound_retire (h : Sound cfg s (g ::ₘ gs)) : Sound cfg s gs := by
  have hmem : ∀ g' ∈ gs, g' ∈ g ::ₘ gs := fun g' hg' => Multiset.mem_cons_of_mem hg'
  have hnamed : ∀ {id task}, Named s gs id task → Named s (g ::ₘ gs) id task := by
    rintro id task (hstored | hsent | ⟨g', hg', hknows⟩)
    · exact .inl hstored
    · exact .inr (.inl hsent)
    · exact .inr (.inr ⟨g', hmem g' hg', hknows⟩)
  refine ⟨h.stored, h.sent, fun id task task' h₁ h₂ => h.named id task task' (hnamed h₁) (hnamed h₂),
    fun id task h₁ => h.used id task (hnamed h₁), fun g' hg' => h.running g' (hmem g' hg'),
    fun g' hg' => h.renewed g' (hmem g' hg'), ?_⟩
  exact Multiset.nodup_of_le (Multiset.filterMap_le_filterMap _ (Multiset.le_cons_self gs g)) h.distinct

/-- A process joins that knows what some request says. -/
theorem sound_start (h : Sound cfg s gs) {role : Role} (hrole : (Ghost.start role).held = none)
    {facts : TaskId → Task → Prop} (hfacts : ∀ id task, facts id task → ∃ x ∈ s.sent, x.2.2.Names id task) :
    Sound cfg s ((Ghost.start role).learn facts ::ₘ gs) := by
  have hnamed : ∀ {id task}, Named s ((Ghost.start role).learn facts ::ₘ gs) id task → Named s gs id task := by
    rintro id task (hstored | hsent | ⟨g, hg, hknows⟩)
    · exact .inl hstored
    · exact .inr (.inl hsent)
    · rcases Multiset.mem_cons.1 hg with rfl | hg
      · rcases hknows with hnothing | hfact
        · exact hnothing.elim
        · exact .inr (.inl (hfacts id task hfact))
      · exact .inr (.inr ⟨g, hg, hknows⟩)
  have hheld : ((Ghost.start role).learn facts).held = none := hrole
  refine ⟨h.stored, h.sent, fun id task task' h₁ h₂ => h.named id task task' (hnamed h₁) (hnamed h₂),
    fun id task h₁ => h.used id task (hnamed h₁), fun g hg n id hholds => ?_, fun g hg n id hrenews => ?_, ?_⟩
  · rcases Multiset.mem_cons.1 hg with rfl | hg
    · rw [hheld] at hholds
      cases hholds
    · exact h.running g hg n id hholds
  · rcases Multiset.mem_cons.1 hg with rfl | hg
    · rw [Ghost.held_of_renewing hrenews] at hheld
      cases hheld
    · exact h.renewed g hg n id hrenews
  · rw [Multiset.filterMap_cons_none _ _ hheld]
    exact h.distinct

/-- Entries may get another lease while they run, and other tasks' renewals may end. -/
theorem sound_renewed (h : Sound cfg s gs) (hsent : s'.sent = s.sent) (hused : s'.used = s.used)
    (hrenewals : ∀ n id, (∃ entry, s.task n (partition_of cfg id) id = some entry ∧ entry.status = .Running) →
      id ∈ (s.node n).renewals → id ∈ (s'.node n).renewals)
    (htask : ∀ n p id, s'.task n p id = s.task n p id ∨ ∃ entry lease, s.task n p id = some entry ∧
      entry.status = .Running ∧ s'.task n p id = some { entry with lease_expires := some lease }) : Sound cfg s' gs := by
  have hentry : ∀ n p id entry, s'.task n p id = some entry → ∃ old, s.task n p id = some old ∧
      entry.task = old.task ∧ (old.WellFormed → entry.WellFormed) := by
    intro n p id entry hentry
    rcases htask n p id with hsame | ⟨old, lease, hold, hrun, hnew⟩
    · exact ⟨entry, hsame ▸ hentry, rfl, fun hwell => hwell⟩
    · rw [hnew] at hentry
      cases hentry
      refine ⟨old, hold, rfl, fun hwell => ?_⟩
      unfold TaskEntry.WellFormed at hwell ⊢
      simp only [hrun] at hwell ⊢
      exact ⟨hwell.1, rfl⟩
  have hnamed : ∀ {id task}, Named s' gs id task → Named s gs id task := by
    rintro id task (⟨n, p, entry, hstored, rfl⟩ | ⟨x, hx, hnames⟩ | hknows)
    · obtain ⟨old, hold, htask, -⟩ := hentry n p id entry hstored
      exact .inl ⟨n, p, old, hold, htask.symm⟩
    · exact .inr (.inl ⟨x, hsent ▸ hx, hnames⟩)
    · exact .inr (.inr hknows)
  refine ⟨fun n p id entry hstored => ?_, fun x hx => h.sent x (hsent ▸ hx),
    fun id task task' h₁ h₂ => h.named id task task' (hnamed h₁) (hnamed h₂),
    fun id task h₁ => hused ▸ h.used id task (hnamed h₁), fun g hg n id hholds => ?_, fun g hg n id hrenews => ?_, h.distinct⟩
  · obtain ⟨old, hold, -, hwell⟩ := hentry n p id entry hstored
    exact (h.stored n p id old hold).imp_right hwell
  · obtain ⟨entry, hstored, hrun⟩ := h.running g hg n id hholds
    rcases htask n (partition_of cfg id) id with hsame | ⟨old, lease, hold, hrun', hnew⟩
    · exact ⟨entry, hsame.trans hstored, hrun⟩
    · exact ⟨_, hnew, hrun'⟩
  · exact hrenewals n id (h.running g hg n id (Ghost.held_of_renewing hrenews)) (h.renewed g hg n id hrenews)

theorem sound_beside {l : QueuePool} (h : Sound cfg s gs) (hbeside : Beside cfg s l s') : Sound cfg s' gs := by
  cases hbeside with
  | tick clock => exact sound_renewed h rfl rfl (fun _ _ _ hmem => hmem) fun _ _ _ => .inl rfl
  | @renewal n task_id _ =>
    obtain ⟨hsent, hused, -, htask⟩ := renewal_round_entry cfg s n task_id
    exact sound_renewed h hsent hused (fun m id hrun => renewal_round_keeps hrun) htask

theorem sound_around {φ : (NodeId → MembershipService) → Prop} {l : QueuePool} (h : Sound cfg s gs)
    (haround : Around cfg φ s l s') : Sound cfg s' gs := by
  cases haround with
  | membership view _ => exact sound_renewed h rfl rfl (fun _ _ _ hmem => hmem) fun _ _ _ => .inl rfl
  | beside hbeside => exact sound_beside h hbeside

/-! ## Every allowed action keeps it -/

/-- Who may complete a task finds it running. -/
theorem Sound.completes (h : Sound cfg s (g ::ₘ gs)) {n : NodeId} {p : Nat} {id : TaskId} {result : Except String Unit}
    (hmay : may cfg job g (.complete n p id result)) {entry : TaskEntry} (hentry : s.task n p id = some entry) :
    entry.status = .Running := by
  obtain ⟨-, hrole, rfl⟩ := hmay
  obtain ⟨entry', hentry', hrun⟩ := h.running g (Multiset.mem_cons_self g gs) n id (Ghost.held_of_holding hrole)
  rw [hentry] at hentry'
  cases hentry'
  exact hrun

theorem sound_stored (h : Sound cfg s (g ::ₘ gs)) {e : QueueAct} {x : QueueI.Ans e} (hmay : may cfg job g e)
    (hstep : QueueSem cfg net e s x s') {n : NodeId} {p : Nat} {id : TaskId} {entry : TaskEntry}
    (hentry : s'.task n p id = some entry) : p = partition_of cfg id ∧ entry.WellFormed := by
  cases hold : s.task n p id with
  | none =>
    rcases entry_origin hstep hold hentry with rfl | ⟨entries, rfl, hmem⟩
    · exact ⟨hmay.1, hmay.2.1.wellFormed⟩
    · exact hmay.1 (id, entry) hmem
  | some old =>
    obtain ⟨hp, hwell⟩ := h.stored n p id old hold
    obtain ⟨entry', hentry', heffect⟩ := entry_effect hstep hold
    rw [hentry] at hentry'
    cases hentry'
    cases heffect with
    | kept => exact ⟨hp, hwell⟩
    | claimed _ _ lease => exact ⟨hp, rfl, rfl⟩
    | @completed result he =>
      subst he
      -- a running task is somebody's
      have hassigned : old.assigned_to.isSome := by
        unfold TaskEntry.WellFormed at hwell
        rw [h.completes hmay hold] at hwell
        exact hwell.1
      cases result with
      | ok _ => exact ⟨hp, hassigned, rfl⟩
      | error err => exact ⟨hp, hassigned, rfl⟩

/-- What a process learns is named somewhere, unless it is a new id for its task. -/
theorem next_knows {e : QueueAct} {x : QueueI.Ans e} (hmay : may cfg job g e) (hstep : QueueSem cfg net e s x s')
    {id : TaskId} {task : Task} (hknows : (next cfg g e x).knows id task) :
    g.knows id task ∨ (∃ n p entry, s.task n p id = some entry ∧ entry.task = task) ∨
      id.text ∉ s.used ∧ id.text ∈ s'.used ∧ g.role = .submitter task := by
  cases e with
  | new_task_id n =>
    obtain ⟨hfresh, rfl⟩ := hstep
    rcases hknows with hknows | ⟨rfl, hrole⟩
    · exact .inl hknows
    · exact .inr (.inr ⟨hfresh, Finset.mem_insert_self _ _, hrole⟩)
  | dump_partition n p =>
    obtain ⟨rfl, rfl⟩ := hstep
    rcases hknows with hknows | ⟨entry, hmem, rfl⟩
    · exact .inl hknows
    · exact .inr (.inl ⟨n, p, entry, QueueCluster.mem_dump_partition.1 hmem, rfl⟩)
  | claim n p task_id =>
    simp only [next] at hknows
    split at hknows
    · exact .inl hknows
    · exact .inl hknows
  | _ => exact .inl hknows

theorem sound_named {e : QueueAct} {x : QueueI.Ans e} (hmay : may cfg job g e)
    (hstep : QueueSem cfg net e s x s') {id : TaskId} {task : Task}
    (hnamed : Named s' (next cfg g e x ::ₘ gs) id task) :
    Named s (g ::ₘ gs) id task ∨ id.text ∉ s.used ∧ id.text ∈ s'.used ∧ g.role = .submitter task := by
  have knows : g.knows id task → Named s (g ::ₘ gs) id task := fun hknows =>
    .inr (.inr ⟨g, Multiset.mem_cons_self g gs, hknows⟩)
  rcases hnamed with ⟨n, p, entry, hentry, rfl⟩ | ⟨y, hy, hnames⟩ | ⟨g', hg', hknows⟩
  · cases hold : s.task n p id with
    | none =>
      rcases entry_origin hstep hold hentry with rfl | ⟨entries, rfl, hmem⟩
      · exact .inl (knows hmay.2.2)
      · exact .inl (knows (hmay.2.1 id entry.task ⟨entry, hmem, rfl⟩))
    | some old =>
      obtain ⟨entry', hentry', heffect⟩ := entry_effect hstep hold
      rw [hentry] at hentry'
      cases hentry'
      exact .inl (.inl ⟨n, p, old, hold, heffect.task.symm⟩)
  · rcases (act_frame hstep).2.2 y hy with hold | ⟨i, rfl⟩
    · exact .inl (.inr (.inl ⟨y, hold, hnames⟩))
    · exact .inl (knows (hmay.2 id task hnames))
  · rcases Multiset.mem_cons.1 hg' with rfl | hg'
    · rcases next_knows hmay hstep hknows with hknows | hstored | hnew
      · exact .inl (knows hknows)
      · exact .inl (.inl hstored)
      · exact .inr hnew
    · exact .inl (.inr (.inr ⟨g', Multiset.mem_cons_of_mem hg', hknows⟩))

/-- A running task runs until it is completed. -/
theorem still_running {e : QueueAct} {x : QueueI.Ans e} (hstep : QueueSem cfg net e s x s') {n : NodeId} {p : Nat}
    {id : TaskId} (hrun : ∃ entry, s.task n p id = some entry ∧ entry.status = .Running)
    (hnot : ∀ result, e ≠ .complete n p id result) : ∃ entry, s'.task n p id = some entry ∧ entry.status = .Running := by
  obtain ⟨entry, hentry, hst⟩ := hrun
  obtain ⟨entry', hentry', heffect⟩ := entry_effect hstep hentry
  refine ⟨entry', hentry', ?_⟩
  cases heffect with
  | kept => exact hst
  | claimed _ _ _ => rfl
  | completed he => exact absurd he (hnot _)

/-- No two processes hold one task. -/
theorem Sound.held_once (h : Sound cfg s (g ::ₘ gs)) {n : NodeId} {id : TaskId} (hg : g.held = some (n, id)) {g' : Ghost}
    (hg' : g' ∈ gs) : g'.held ≠ some (n, id) := by
  intro hholds
  have hdistinct := h.distinct
  rw [Multiset.filterMap_cons_some _ _ _ hg, Multiset.nodup_cons] at hdistinct
  exact hdistinct.1 ((Multiset.mem_filterMap _ _).2 ⟨g', hg', hholds⟩)

/-- What the other processes hold keeps running. -/
theorem others_running (h : Sound cfg s (g ::ₘ gs)) {e : QueueAct} {x : QueueI.Ans e} (hmay : may cfg job g e)
    (hstep : QueueSem cfg net e s x s') {g' : Ghost} (hg' : g' ∈ gs) {n : NodeId} {id : TaskId}
    (hholds : g'.held = some (n, id)) :
    ∃ entry, s'.task n (partition_of cfg id) id = some entry ∧ entry.status = .Running := by
  refine still_running hstep (h.running g' (Multiset.mem_cons_of_mem hg') n id hholds) ?_
  rintro result rfl
  exact h.held_once (Ghost.held_of_holding hmay.2.1) hg' hholds

theorem sound_held (h : Sound cfg s (g ::ₘ gs)) {e : QueueAct} {x : QueueI.Ans e} (hmay : may cfg job g e)
    (hstep : QueueSem cfg net e s x s') :
    (∀ n id, (next cfg g e x).held = some (n, id) →
      ∃ entry, s'.task n (partition_of cfg id) id = some entry ∧ entry.status = .Running) ∧
    ((next cfg g e x ::ₘ gs).filterMap Ghost.held).Nodup := by
  have same : (next cfg g e x).held = g.held → (∀ n p id result, e ≠ .complete n p id result) →
      (∀ n id, (next cfg g e x).held = some (n, id) →
        ∃ entry, s'.task n (partition_of cfg id) id = some entry ∧ entry.status = .Running) ∧
      ((next cfg g e x ::ₘ gs).filterMap Ghost.held).Nodup := by
    intro hheld hnot
    refine ⟨fun n id hholds => ?_, ?_⟩
    · exact still_running hstep (h.running g (Multiset.mem_cons_self g gs) n id (hheld ▸ hholds)) (hnot n _ id)
    · have hsame : (next cfg g e x ::ₘ gs).filterMap Ghost.held = (g ::ₘ gs).filterMap Ghost.held := by
        cases hg : g.held with
        | none => rw [Multiset.filterMap_cons_none _ _ hg, Multiset.filterMap_cons_none _ _ (hheld.trans hg)]
        | some b => rw [Multiset.filterMap_cons_some _ _ _ hg, Multiset.filterMap_cons_some _ _ _ (hheld.trans hg)]
      rw [hsame]
      exact h.distinct
  have hrest : (gs.filterMap Ghost.held).Nodup := (sound_retire h).distinct
  cases e with
  | claim n p id =>
    obtain ⟨-, hrole, rfl, -⟩ := hmay
    cases x with
    | false => exact same rfl fun _ _ _ _ he => by cases he
    | true =>
      have hclaim : (true, s') = s.claim n (partition_of cfg id) id := hstep
      rcases QueueCluster.claim_cases s n (partition_of cfg id) id with hsame | ⟨entry, hentry, hpending, hput⟩
      · rw [hsame] at hclaim
        cases hclaim
      rw [hput] at hclaim
      obtain rfl := congrArg Prod.snd hclaim
      -- the task was pending, so nobody held it
      have hnot : (n, id) ∉ gs.filterMap Ghost.held := by
        intro hmem
        obtain ⟨g', hg', hheld⟩ := (Multiset.mem_filterMap _ _).1 hmem
        obtain ⟨entry', hentry', hrun⟩ := h.running g' (Multiset.mem_cons_of_mem hg') n id hheld
        rw [hentry] at hentry'
        cases hentry'
        rw [hpending] at hrun
        cases hrun
      have hheld : (next cfg g (.claim n (partition_of cfg id) id) true).held = some (n, id) := rfl
      refine ⟨fun m id' hholds => ?_, ?_⟩
      · cases hholds
        exact ⟨_, (QueueCluster.task_put_task _).trans (if_pos ⟨rfl, rfl, rfl⟩), rfl⟩
      · rw [Multiset.filterMap_cons_some _ _ _ hheld, Multiset.nodup_cons]
        exact ⟨hnot, hrest⟩
  | complete n p id result =>
    refine ⟨fun m id' hholds => (by cases hholds), ?_⟩
    rw [Multiset.filterMap_cons_none _ _ rfl]
    exact hrest
  | spawn_renewal n id => exact same (Ghost.held_of_holding hmay).symm fun _ _ _ _ he => by cases he
  | abort_renewal n id => exact same (Ghost.held_of_renewing hmay).symm fun _ _ _ _ he => by cases he
  | _ => exact same rfl fun _ _ _ _ he => by cases he

/-- Who has started renewals is the one to stop them. -/
theorem sound_renewals (h : Sound cfg s (g ::ₘ gs)) {e : QueueAct} {x : QueueI.Ans e} (hmay : may cfg job g e)
    (hstep : QueueSem cfg net e s x s') {g' : Ghost} (hmem : g' ∈ next cfg g e x ::ₘ gs) {n : NodeId} {id : TaskId}
    (hrenews : g'.role = .renewing n id) : id ∈ (s'.node n).renewals := by
  rcases Multiset.mem_cons.1 hmem with rfl | hg'
  · have kept : g.role = .renewing n id → e ≠ .abort_renewal n id → id ∈ (s'.node n).renewals := fun hrole hne =>
      renewals_act hstep hne (h.renewed g (Multiset.mem_cons_self g gs) n id hrole)
    cases e with
    | spawn_renewal m id' =>
      cases hrenews
      obtain rfl : s' = s.spawn_renewal n id := hstep
      simp [QueueCluster.spawn_renewal]
    | claim m p id' =>
      cases x with
      | true => cases hrenews
      | false => exact kept hrenews fun he => by cases he
    | complete m p id' result => cases hrenews
    | abort_renewal m id' => cases hrenews
    | _ => exact kept hrenews fun he => by cases he
  · refine renewals_act hstep ?_ (h.renewed g' (Multiset.mem_cons_of_mem hg') n id hrenews)
    rintro rfl
    exact h.held_once (Ghost.held_of_renewing hmay) hg' (Ghost.held_of_renewing hrenews)

theorem sound_act (h : Sound cfg s (g ::ₘ gs)) {e : QueueAct} {x : QueueI.Ans e} (hmay : may cfg job g e)
    (hstep : QueueSem cfg net e s x s') : gives cfg e x ∧ Sound cfg s' (next cfg g e x ::ₘ gs) := by
  have hgives : gives cfg e x := by
    cases e with
    | dump_partition n p =>
      obtain ⟨rfl, rfl⟩ := hstep
      exact fun e he => h.stored n p e.1 e.2 (QueueCluster.mem_dump_partition.1 he)
    | _ => trivial
  obtain ⟨-, hused, hsent⟩ := act_frame hstep
  obtain ⟨hrun, hdistinct⟩ := sound_held h hmay hstep
  refine ⟨hgives, fun n p id entry hentry => sound_stored h hmay hstep hentry, fun y hy => ?_,
    fun id task task' h₁ h₂ => ?_, fun id task h₁ => ?_, fun g' hg' n id hholds => ?_,
    fun g' hg' n id hrenews => sound_renewals h hmay hstep hg' hrenews, hdistinct⟩
  · rcases hsent y hy with hold | ⟨i, rfl⟩
    · exact h.sent y hold
    · exact hmay.1
  · rcases sound_named hmay hstep h₁ with h₁ | ⟨hnot, -, hrole⟩
    · rcases sound_named hmay hstep h₂ with h₂ | ⟨hnot, -, -⟩
      · exact h.named id task task' h₁ h₂
      · exact absurd (h.used id task h₁) hnot
    · rcases sound_named hmay hstep h₂ with h₂ | ⟨-, -, hrole'⟩
      · exact absurd (h.used id task' h₂) hnot
      · rw [hrole] at hrole'
        exact Role.submitter.inj hrole'
  · rcases sound_named hmay hstep h₁ with h₁ | ⟨-, hnew, -⟩
    · exact hused (h.used id task h₁)
    · exact hnew
  · rcases Multiset.mem_cons.1 hg' with rfl | hg'
    · exact hrun n id hholds
    · exact others_running h hmay hstep hg' hholds

/-! ## Each program follows it -/

section Programs

/-- `p` is allowed to a process with ghost `g`, and only adds to it. -/
abbrev Follows (cfg : MapConfig) (job : Job) {α : Type} (p : QueueM α) (g : Ghost) (Q : α → Ghost → Prop) : Prop :=
  Grows (discipline cfg job) p g Q

variable {n : NodeId} {partition : Nat} {task_id : TaskId} {task : Task} {entry : TaskEntry}

theorem follows_pure {α : Type} (a : α) : Follows cfg job (pure a : QueueM α) g fun _ _ => True := Grows.pure trivial

theorem follows_act {e : QueueAct} (hmay : may cfg job g e) (hnext : ∀ x, g ≤ next cfg g e x) :
    Follows cfg job (act e) g fun x g' => gives cfg e x ∧ g' = next cfg g e x :=
  Grows.perform hmay fun x hx => ⟨hnext x, hx, rfl⟩

/-- An action that asks for nothing and tells the process nothing new. -/
theorem follows_read (e : QueueAct) (hmay : may cfg job g e) (hnext : ∀ x, next cfg g e x = g) :
    Follows cfg job (act e) g fun _ _ => True :=
  (follows_act hmay fun x => (hnext x).ge).post fun _ _ _ _ => trivial

theorem membership_follows (n : NodeId) : Follows cfg job (membership n) g fun view g' =>
    ∀ p, (cfg.partitioner.get_owners view p).head? = some n → g'.leads n p := by
  refine (follows_act (e := .membership n) trivial fun x => ⟨rfl, le_rfl, le_sup_left, le_rfl⟩).post ?_
  rintro view g' - ⟨-, rfl⟩ p hp
  exact .inr ⟨rfl, hp⟩

theorem now_ms_follows (n : NodeId) : Follows cfg job (now_ms n) g fun _ _ => True := follows_read _ trivial fun _ => rfl

theorem get_owners_follows (n : NodeId) (p : Nat) :
    Follows cfg job (get_owners cfg n p) g fun owners g' => owners.head? = some n → g'.leads n p :=
  (membership_follows n).bind fun _ _ _ hleads => Grows.pure (hleads p)

theorem get_member_follows (n m : NodeId) : Follows cfg job (get_member n m) g fun _ _ => True :=
  (membership_follows n).bind fun _ _ _ _ => follows_pure _

theorem store_local_follows (n : NodeId) (hp : partition = partition_of cfg task_id) (hwell : entry.Unclaimed)
    (hknows : g.knows task_id entry.task) :
    Follows cfg job (store_local n partition task_id entry) g fun _ _ => True :=
  follows_read (.store_local n partition task_id entry) ⟨hp, hwell, hknows⟩ fun _ => rfl

theorem dump_partition_follows (m : NodeId) (p : Nat) : Follows cfg job (dump_partition m p) g (Seen cfg p) := by
  refine (follows_act (e := .dump_partition m p) trivial fun x => ⟨rfl, le_sup_left, le_rfl, le_sup_left⟩).post ?_
  rintro entries g' - ⟨hsound, rfl⟩
  exact ⟨hsound, le_sup_right, le_sup_right⟩

theorem request_follows {ρ : Type} {Q : ρ → Ghost → Prop} (n : NodeId) (addr : SocketAddr) {req : TaskRequest}
    (hsound : req.Sound cfg) (hnames : ∀ id task, req.Names id task → g.knows id task)
    {serve : NodeId → QueueM ρ} (hserve : ∀ m g', g ≤ g' → Follows cfg job (serve m) g' Q) (attempts : Nat) :
    Follows cfg job (request n addr req serve attempts) g fun r g' => ∀ x, r = .ok x → Q x g' :=
  Grows.retry (fun i _ hg' => follows_read (.send n addr req i)
    ⟨hsound, fun id task h => hg'.2.1 id task (hnames id task h)⟩ fun _ => rfl) hserve attempts

theorem pending_entry_follows (n : NodeId) (task : Task) :
    Follows cfg job (pending_entry n task) g fun entry _ => entry.Unclaimed ∧ entry.task = task :=
  (now_ms_follows n).bind fun _ _ _ _ => Grows.pure ⟨⟨rfl, rfl, rfl⟩, rfl⟩

theorem handle_replicate_task_follows (m : NodeId) {req : ReplicateTaskRequest} (hsound : (TaskRequest.replicate req).Sound cfg)
    (hknows : g.knows req.task_id req.entry.task) : Follows cfg job (handle_replicate_task m req) g fun _ _ => True :=
  (store_local_follows m hsound.1 hsound.2 hknows).bind fun _ _ _ _ => follows_pure _

theorem replicate_task_to_backup_follows (n backup : NodeId) (hp : partition = partition_of cfg task_id)
    (hwell : entry.Unclaimed) (hknows : g.knows task_id entry.task) :
    Follows cfg job (replicate_task_to_backup n backup partition task_id entry) g fun _ _ => True := by
  refine (get_member_follows n backup).bind fun o g₁ h₁ _ => ?_
  cases o with
  | none => exact follows_pure _
  | some node =>
    have hsound : (TaskRequest.replicate ⟨partition, task_id, entry⟩).Sound cfg := ⟨hp, hwell⟩
    have hknows₁ : g₁.knows task_id entry.task := h₁.2.1 _ _ hknows
    have hserve : ∀ m g', g₁ ≤ g' → Follows cfg job (handle_replicate_task m ⟨partition, task_id, entry⟩) g' fun _ _ => True :=
      fun m g' hg' => handle_replicate_task_follows m hsound (hg'.2.1 _ _ hknows₁)
    refine (request_follows n node.http_addr hsound ?_ hserve 3).bind fun r _ _ _ => ?_
    · rintro id task ⟨rfl, rfl⟩
      exact hknows₁
    · cases r with
      | error e => exact follows_pure _
      | ok status =>
        dsimp only
        split
        · exact follows_pure _
        · exact follows_pure _

theorem replicate_all_follows (n : NodeId) (hp : partition = partition_of cfg task_id) (hwell : entry.Unclaimed)
    (backups : List NodeId) {g : Ghost} (hknows : g.knows task_id entry.task) :
    Follows cfg job (replicate_all n partition task_id entry backups) g fun _ _ => True := by
  induction backups generalizing g with
  | nil => exact follows_pure _
  | cons backup backups ih =>
    refine (replicate_task_to_backup_follows n backup hp hwell hknows).bind fun r g₁ h₁ _ => ?_
    cases r with
    | ok _ => exact ih (h₁.2.1 _ _ hknows)
    | error e => exact follows_pure _

theorem store_as_primary_follows (n : NodeId) (hp : partition = partition_of cfg task_id) (hwell : entry.Unclaimed)
    (hknows : g.knows task_id entry.task) :
    Follows cfg job (store_as_primary cfg n partition task_id entry) g fun _ _ => True := by
  refine (store_local_follows n hp hwell hknows).bind fun _ g₁ h₁ _ => ?_
  refine (get_owners_follows n partition).bind fun owners g₂ h₂ _ => ?_
  exact replicate_all_follows n hp hwell owners.tail ((h₁.trans h₂).2.1 _ _ hknows)

theorem handle_internal_submit_task_follows (m : NodeId) {req : ForwardTaskRequest}
    (hsound : (TaskRequest.internal_submit req).Sound cfg) (hknows : g.knows req.task_id req.task) :
    Follows cfg job (handle_internal_submit_task cfg m req) g fun _ _ => True := by
  refine (pending_entry_follows m req.task).bind fun entry g₁ h₁ ⟨hwell, htask⟩ => ?_
  have hknows₁ : g₁.knows req.task_id entry.task := htask ▸ h₁.2.1 _ _ hknows
  refine (store_as_primary_follows m hsound hwell hknows₁).bind fun r _ _ _ => ?_
  cases r with
  | ok _ => exact follows_pure _
  | error e => exact follows_pure _

theorem forward_task_follows (n target : NodeId) (hp : partition = partition_of cfg task_id)
    (hknows : g.knows task_id task) :
    Follows cfg job (forward_task cfg n target partition task_id task) g fun _ _ => True := by
  refine (get_member_follows n target).bind fun o g₁ h₁ _ => ?_
  cases o with
  | none => exact follows_pure _
  | some node =>
    have hsound : (TaskRequest.internal_submit ⟨partition, task_id, task⟩).Sound cfg := hp
    have hknows₁ : g₁.knows task_id task := h₁.2.1 _ _ hknows
    have hserve : ∀ m g', g₁ ≤ g' →
        Follows cfg job (handle_internal_submit_task cfg m ⟨partition, task_id, task⟩) g' fun _ _ => True :=
      fun m g' hg' => handle_internal_submit_task_follows m hsound (hg'.2.1 _ _ hknows₁)
    refine (request_follows n node.http_addr hsound ?_ hserve 3).bind fun r _ _ _ => ?_
    · rintro id task' ⟨rfl, rfl⟩
      exact hknows₁
    · cases r with
      | error e => exact follows_pure _
      | ok response =>
        dsimp only
        split
        · exact follows_pure _
        · exact follows_pure _

/-- A new id is for the submitter's task. -/
theorem new_task_id_follows (n : NodeId) (hrole : g.role = .submitter task) :
    Follows cfg job (new_task_id n) g fun task_id g' => g'.knows task_id task := by
  refine (follows_act (e := .new_task_id n) ⟨task, hrole⟩ fun x => g.le_learn _).post ?_
  rintro task_id g' - ⟨-, rfl⟩
  exact .inr ⟨rfl, hrole⟩

theorem submit_follows (n : NodeId) (hrole : g.role = .submitter task) : Follows cfg job (submit cfg n task) g fun r g' =>
    ∀ task_id, r = .ok task_id → g'.knows task_id task := by
  refine (new_task_id_follows n hrole).bind fun task_id g₁ _ hknows => ?_
  refine (get_owners_follows n _).bind fun owners g₂ h₂ _ => ?_
  have hknows₂ : g₂.knows task_id task := h₂.2.1 _ _ hknows
  have hok : ∀ g', g₂ ≤ g' → ∀ id, (Except.ok task_id : Result TaskId) = .ok id → g'.knows id task := by
    rintro g' hg' id h
    cases h
    exact hg'.2.1 _ _ hknows₂
  cases owners with
  | nil =>
    refine (pending_entry_follows n task).bind fun entry g₃ h₃ ⟨hwell, htask⟩ => ?_
    refine (store_local_follows n rfl hwell (htask ▸ h₃.2.1 _ _ hknows₂)).bind fun _ g₄ h₄ _ => ?_
    exact Grows.pure (hok g₄ (h₃.trans h₄))
  | cons primary backups =>
    dsimp only
    split
    · refine (pending_entry_follows n task).bind fun entry g₃ h₃ ⟨hwell, htask⟩ => ?_
      refine (store_as_primary_follows n rfl hwell (htask ▸ h₃.2.1 _ _ hknows₂)).bind fun r g₄ h₄ _ => ?_
      cases r with
      | ok _ => exact Grows.pure (hok g₄ (h₃.trans h₄))
      | error e => exact Grows.pure fun id h => by cases h
    · refine (forward_task_follows n primary rfl hknows₂).bind fun r g₃ h₃ _ => ?_
      cases r with
      | ok _ => exact Grows.pure (hok g₃ h₃)
      | error e => exact Grows.pure fun id h => by cases h

theorem handle_submit_task_follows (n : NodeId) (hrole : g.role = .submitter task) :
    Follows cfg job (handle_submit_task cfg n task) g fun _ _ => True := by
  refine (submit_follows n hrole).bind fun r g₁ h₁ _ => ?_
  cases r with
  | ok _ => exact follows_pure _
  | error e => exact (new_task_id_follows n (h₁.1.symm.trans hrole)).bind fun _ _ _ _ => follows_pure _

theorem is_available_follows (n : NodeId) (entry : TaskEntry) : Follows cfg job (is_available n entry) g fun _ _ => True := by
  unfold is_available
  split
  · exact follows_pure _
  · split
    · exact (now_ms_follows n).bind fun _ _ _ _ => follows_pure _
    · exact follows_pure _
  · exact follows_pure _
  · exact follows_pure _

theorem available_tasks_follows (n : NodeId) (entries : List (TaskId × TaskEntry)) {g : Ghost} :
    Follows cfg job (available_tasks n entries) g fun tasks _ => tasks ⊆ entries := by
  induction entries generalizing g with
  | nil => exact Grows.pure (List.Subset.refl _)
  | cons e entries ih =>
    refine (is_available_follows n e.2).bind fun available _ _ _ => ?_
    refine ih.bind fun tasks _ _ hsub => Grows.pure ?_
    split
    · exact List.cons_subset_cons e hsub
    · exact List.subset_cons_of_subset e hsub

/-- A worker lists tasks of partitions it has seen its node lead. -/
theorem pending_tasks_follows (n : NodeId) (partitions : List Nat) {g : Ghost} (hleads : ∀ p ∈ partitions, g.leads n p) :
    Follows cfg job (pending_tasks n partitions) g fun tasks g' => ∀ e ∈ tasks, g'.leads n (partition_of cfg e.1) := by
  induction partitions generalizing g with
  | nil => exact Grows.pure fun e he => by cases he
  | cons p partitions ih =>
    refine (dump_partition_follows n p).bind fun entries g₁ h₁ ⟨hsound, _, _⟩ => ?_
    refine (available_tasks_follows n entries).bind fun tasks g₂ h₂ hsub => ?_
    have hle : g ≤ g₂ := h₁.trans h₂
    refine (ih fun p' hp' => hle.2.2.1 _ _ (hleads p' (List.mem_cons_of_mem _ hp'))).bind fun others g₃ h₃ hothers => ?_
    refine Grows.pure fun e he => ?_
    rcases List.mem_append.1 he with he | he
    · rw [← (hsound e (hsub he)).1]
      exact (hle.trans h₃).2.2.1 _ _ (hleads p List.mem_cons_self)
    · exact hothers e he

theorem my_pending_tasks_follows (n : NodeId) :
    Follows cfg job (my_pending_tasks cfg n) g fun tasks g' => ∀ e ∈ tasks, g'.leads n (partition_of cfg e.1) := by
  have hlook : ∀ p g₀, g ≤ g₀ → Follows cfg job (do pure ((← get_owners cfg n p).head? == some n)) g₀
      fun x g' => x = true → g'.leads n p := fun p g₀ _ =>
    (get_owners_follows n p).bind fun owners g₁ _ hleads => Grows.pure fun hx => hleads (beq_iff_eq.1 hx)
  have hgrows : ∀ (p : Nat) (x : Bool), Monotone fun g' : Ghost => x = true → g'.leads n p :=
    fun p x g₁ g₂ hle h hx => hle.2.2.1 _ _ (h hx)
  have hpartitions : Follows cfg job (get_my_primary_partitions cfg n) g fun partitions g' => ∀ p ∈ partitions, g'.leads n p :=
    (Grows.filterM hgrows hlook _).post fun _ _ _ h p hp => h.of_mem hp rfl
  exact hpartitions.bind fun partitions g₁ _ hleads => pending_tasks_follows n partitions hleads

theorem execute_with_lease_obeys (hjob : job.is_worker) (hrole : g.role = .holding n task_id) (task : Task) :
    Obeys (discipline cfg job) (execute_with_lease cfg n task_id task) g fun _ _ => True := by
  have hspawn : Obeys (discipline cfg job) (spawn_lease_renewal n task_id) g fun _ g' => g'.role = .renewing n task_id :=
    Obeys.perform hrole fun _ _ => rfl
  refine hspawn.bind fun _ g₁ hrenews => ?_
  have hexecute : Obeys (discipline cfg job) (execute_task n task) g₁ fun _ g' => g'.role = .renewing n task_id :=
    Obeys.perform ⟨task_id, hrenews⟩ fun _ _ => hrenews
  refine hexecute.bind fun outcome g₂ hrenews => ?_
  cases outcome with
  | none => exact Obeys.pure trivial
  | some result =>
    have habort : Obeys (discipline cfg job) (abort_renewal n task_id) g₂ fun _ g' => g'.role = .holding n task_id :=
      Obeys.perform hrenews fun _ _ => rfl
    refine habort.bind fun _ g₃ hrole => ?_
    have hcomplete : Obeys (discipline cfg job) (complete_task cfg n task_id result) g₃ fun _ _ => True :=
      Obeys.perform ⟨hjob, hrole, rfl⟩ fun _ _ => trivial
    exact hcomplete.bind fun _ _ _ => Obeys.pure trivial

theorem claim_first_obeys (hjob : job.is_worker) (n : NodeId) (tasks : List (TaskId × TaskEntry)) (hrole : g.role = .worker)
    (hleads : ∀ e ∈ tasks, g.leads n (partition_of cfg e.1)) :
    Obeys (discipline cfg job) (claim_first cfg n tasks) g fun _ _ => True := by
  induction tasks with
  | nil => exact Obeys.pure trivial
  | cons e tasks ih =>
    have hclaim : Obeys (discipline cfg job) (try_claim_task cfg n e.1) g fun r g' =>
        r = .ok true ∧ g'.role = .holding n e.1 ∨ r = .ok false ∧ g' = g := by
      refine Obeys.bind (Q := fun claimed g' => claimed = true ∧ g'.role = .holding n e.1 ∨ claimed = false ∧ g' = g)
        (Obeys.perform ⟨hjob, hrole, rfl, hleads e List.mem_cons_self⟩ fun claimed _ => ?_) fun claimed g₁ h₁ => ?_
      · cases claimed with
        | true => exact .inl ⟨rfl, rfl⟩
        | false => exact .inr ⟨rfl, rfl⟩
      · rcases h₁ with ⟨rfl, hholds⟩ | ⟨rfl, rfl⟩
        · exact Obeys.pure (.inl ⟨rfl, hholds⟩)
        · exact Obeys.pure (.inr ⟨rfl, rfl⟩)
    refine hclaim.bind fun r g₁ h₁ => ?_
    rcases h₁ with ⟨rfl, hholds⟩ | ⟨rfl, rfl⟩
    · exact execute_with_lease_obeys hjob hholds e.2.task
    · exact ih fun e' he' => hleads e' (List.mem_cons_of_mem _ he')

theorem worker_loop_obeys (hjob : job.is_worker) (n : NodeId) (hrole : g.role = .worker) :
    Obeys (discipline cfg job) (worker_loop cfg n) g fun _ _ => True :=
  Obeys.bind (my_pending_tasks_follows n) fun tasks _ h₁ => claim_first_obeys hjob n tasks (h₁.1.1.symm.trans hrole) h₁.2

theorem handle_task_partition_dump_follows (m : NodeId) (p : Nat) :
    Follows cfg job (handle_task_partition_dump m p) g fun dump => Seen cfg p dump.entries :=
  (dump_partition_follows m p).bind fun _ _ _ h => Grows.pure h

theorem fetch_partition_follows (n m : NodeId) (p : Nat) : Follows cfg job (fetch_partition n m p) g fun r g' =>
    ∀ entries, r = .ok entries → Seen cfg p entries g' := by
  refine (get_member_follows n m).bind fun o g₁ _ _ => ?_
  cases o with
  | none => exact Grows.pure fun _ h => by cases h
  | some node =>
    refine (request_follows n node.http_addr (show (TaskRequest.partition_dump p).Sound cfg from trivial)
      (fun _ _ h => h.elim) (fun m _ _ => handle_task_partition_dump_follows m p) 3).bind fun r _ _ hr => ?_
    cases r with
    | error e => exact Grows.pure fun _ h => by cases h
    | ok dump => exact Grows.pure fun entries h => Except.ok.inj h ▸ hr dump rfl

theorem resync_follows (n m : NodeId) (p : Nat) : Follows cfg job (resync n m p) g fun _ _ => True := by
  refine (fetch_partition_follows n m p).bind fun r g₁ _ hr => ?_
  cases r with
  | error e => exact follows_pure _
  | ok entries =>
    dsimp only
    split
    · exact follows_pure _
    · exact follows_read _ (hr entries rfl) fun _ => rfl

theorem sync_queue_partition_follows (n : NodeId) (p : Nat) :
    Follows cfg job (sync_queue_partition cfg n p) g fun _ _ => True := by
  refine (get_owners_follows n p).bind fun owners _ _ _ => ?_
  cases owners with
  | nil => exact follows_pure _
  | cons primary backups =>
    dsimp only
    split
    · refine (follows_read (.has_partition n p) trivial fun _ => rfl).bind fun b _ _ _ => ?_
      cases b with
      | true => exact follows_pure _
      | false =>
        cases backups with
        | nil => exact follows_pure _
        | cons source_owner _ => exact resync_follows n source_owner p
    · exact resync_follows n primary p

theorem sync_each_follows (n : NodeId) (partitions : List Nat) {g : Ghost} :
    Follows cfg job (sync_each cfg n partitions) g fun _ _ => True := by
  induction partitions generalizing g with
  | nil => exact follows_pure _
  | cons p partitions ih => exact (sync_queue_partition_follows n p).bind fun _ _ _ _ => ih

theorem partitions_where_follows (n : NodeId) (mine : List NodeId → Bool) :
    Follows cfg job (partitions_where cfg n mine) g fun _ _ => True :=
  (Grows.filterM (φ := fun _ _ _ => True) (fun _ _ _ _ _ _ => trivial)
    (fun p _ _ => (get_owners_follows n p).bind fun _ _ _ _ => follows_pure _) _).post fun _ _ _ _ => trivial

theorem target_partitions_follows (n : NodeId) : Follows cfg job (target_partitions cfg n) g fun _ _ => True :=
  (partitions_where_follows n _).bind fun _ _ _ _ => (partitions_where_follows n _).bind fun _ _ _ _ =>
    follows_read (.iterate n _) trivial fun _ => rfl

theorem sync_queue_partitions_follows (n : NodeId) : Follows cfg job (sync_queue_partitions cfg n) g fun _ _ => True :=
  (target_partitions_follows n).bind fun partitions _ _ _ => (sync_each_follows n partitions).bind fun _ _ _ _ => follows_pure _

theorem route_get_task_internal_follows (m : NodeId) (path : String) :
    Follows cfg job (route_get_task_internal cfg m path) g fun _ _ => True := by
  unfold route_get_task_internal
  cases cfg.route path with
  | error status => exact follows_pure _
  | ok task_id_str =>
    refine (follows_read (.lookup m (partition_of cfg ⟨task_id_str⟩) ⟨task_id_str⟩) trivial fun _ => rfl).bind fun o _ _ _ => ?_
    cases o with
    | none => exact follows_pure _
    | some entry => exact follows_pure _

theorem unattended_obeys {α : Type} {p : QueueM α} {Q : α → Ghost → Prop} (h : Obeys (discipline cfg job) p g Q) :
    Obeys (discipline cfg job) (unattended p) g fun _ _ => True :=
  h.bind fun _ _ _ => Obeys.pure trivial

theorem serve_obeys (m : NodeId) {req : TaskRequest} (hsound : req.Sound cfg)
    (hknows : ∀ id task, req.Names id task → g.knows id task) :
    Obeys (discipline cfg job) (serve cfg m req) g fun _ _ => True := by
  cases req with
  | internal_submit req => exact unattended_obeys (handle_internal_submit_task_follows m hsound (hknows _ _ ⟨rfl, rfl⟩))
  | replicate req => exact unattended_obeys (handle_replicate_task_follows m hsound (hknows _ _ ⟨rfl, rfl⟩))
  | partition_dump p => exact unattended_obeys (handle_task_partition_dump_follows m p)
  | get_task key => exact unattended_obeys (route_get_task_internal_follows m key)

end Programs

/-! ## Every run follows it -/

/-- A submission that was accepted gave its task an id. -/
def Answered : Job → Option (Result TaskId) → Ghost → Prop
  | .submit _ task, answer, g => ∀ task_id, answer = some (.ok task_id) → g.knows task_id task
  | _, _, _ => True

/-- What starts follows the discipline, knowing no more than the request that arrives. -/
theorem started_obeys {l : QueuePool} {job : Job} {p : QueueM (Option (Result TaskId))} (h : Started cfg s l job p)
    (hsent : ∀ x ∈ s.sent, x.2.2.Sound cfg) :
    ∃ role facts, (Ghost.start role).held = none ∧ (∀ id task, facts id task → ∃ x ∈ s.sent, x.2.2.Names id task) ∧
      (∀ id task, facts id task → ∃ m req, job = .arrival m req ∧ req.Names id task) ∧
      Obeys (discipline cfg job) p ((Ghost.start role).learn facts) (Answered job) := by
  cases h with
  | submit n task =>
    refine ⟨.submitter task, fun _ _ => False, rfl, fun _ _ h => h.elim, fun _ _ h => h.elim, ?_⟩
    refine Obeys.bind (submit_follows n rfl) fun answer g' h' => Obeys.pure fun task_id h => ?_
    exact h'.2 task_id (Option.some.inj h)
  | submission n task =>
    exact ⟨.submitter task, fun _ _ => False, rfl, fun _ _ h => h.elim, fun _ _ h => h.elim,
      unattended_obeys (handle_submit_task_follows n rfl)⟩
  | worker n =>
    exact ⟨.worker, fun _ _ => False, rfl, fun _ _ h => h.elim, fun _ _ h => h.elim,
      unattended_obeys (worker_loop_obeys (show (Job.worker n).is_worker from trivial) n rfl)⟩
  | resync n =>
    exact ⟨.server, fun _ _ => False, rfl, fun _ _ h => h.elim, fun _ _ h => h.elim,
      unattended_obeys (sync_queue_partitions_follows n)⟩
  | @arrival n addr req m hmem _ =>
    exact ⟨.server, fun id task => req.Names id task, rfl, fun id task hnames => ⟨_, hmem, hnames⟩,
      fun id task hnames => ⟨m, req, rfl, hnames⟩,
      serve_obeys m (hsent _ hmem) fun id task hnames => .inr hnames⟩

abbrev QueueTracked (cfg : MapConfig) (c : QueueCluster × QueuePool) : Prop :=
  Pool.Tracked (discipline cfg) (Sound cfg) Answered c

/-- What starts joins a pool whose invariant lets new processes in. -/
theorem tracked_spawn {Inv : QueueCluster → Multiset Ghost → Prop} {l : QueuePool} {job : Job}
    {p : QueueM (Option (Result TaskId))} (h : Pool.Tracked (discipline cfg) Inv Answered (s, l))
    (hstart : Started cfg s l job p) (hsent : ∀ gs, Inv s gs → ∀ x ∈ s.sent, x.2.2.Sound cfg)
    (hjoin : ∀ gs role facts, (Ghost.start role).held = none →
      (∀ id task, facts id task → ∃ x ∈ s.sent, x.2.2.Names id task) → Inv s gs → Inv s ((Ghost.start role).learn facts ::ₘ gs)) :
    Pool.Tracked (discipline cfg) Inv Answered (s, (job, p) :: l) := by
  obtain ⟨gs, hinv⟩ := h.inv
  obtain ⟨role, facts, hrole, hfacts, -, hobeys⟩ := started_obeys hstart (hsent gs hinv)
  exact h.join hobeys fun gs' hgs' => hjoin gs' role facts hrole hfacts hgs'

theorem tracked_of_steps {φ : (NodeId → MembershipService) → Prop} {c c' : QueueCluster × QueuePool}
    (h : StepsWithin cfg net φ c c') (hc : QueueTracked cfg c) : QueueTracked cfg c' :=
  Pool.tracked_steps (fun _ _ _ _ _ _ _ hinv hmay hstep => sound_act hinv hmay hstep)
    (fun _ _ _ hinv => sound_retire hinv)
    (fun _ _ _ _ hl hstart => tracked_spawn hl hstart (fun _ hinv => hinv.sent) fun _ _ _ hrole hfacts hinv =>
      sound_start hinv hrole hfacts)
    (fun _ _ _ _ hinv haround => sound_around hinv haround) h hc

theorem tracked_empty (view : NodeId → MembershipService) (clock : NodeId → Nat) :
    QueueTracked cfg (.empty view clock, []) :=
  Pool.tracked_nil (sound_empty view clock)

/-- In every run, tasks lie where their ids say, and their entries are in order. -/
theorem stored_of_reachable (h : Reachable cfg net s) {n : NodeId} {p : Nat} {id : TaskId} {entry : TaskEntry}
    (hentry : s.task n p id = some entry) : p = partition_of cfg id ∧ entry.WellFormed := by
  obtain ⟨view, clock, l, hsteps⟩ := h
  obtain ⟨gs, hsound⟩ := (tracked_of_steps hsteps (tracked_empty view clock)).inv
  exact hsound.stored n p id entry hentry

/-- The id of an entry has been generated. -/
theorem used_of_reachable (h : Reachable cfg net s) {n : NodeId} {p : Nat} {id : TaskId} {entry : TaskEntry}
    (hentry : s.task n p id = some entry) : id.text ∈ s.used := by
  obtain ⟨view, clock, l, hsteps⟩ := h
  obtain ⟨gs, hsound⟩ := (tracked_of_steps hsteps (tracked_empty view clock)).inv
  exact hsound.used id entry.task (.inl ⟨n, p, entry, hentry, rfl⟩)

end Executor
