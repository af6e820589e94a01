import DistributedCluster.Executor.Acceptance
import DistributedCluster.Executor.Conduct
/-!
# The status of a task

Once a submission was accepted, every owner keeps an entry of the task, and what
happens to it later happens at the primary alone: a resync adds entries and
changes none. A status query is answered from the local entry if there is one.
-/

namespace Executor

open Async

variable {cfg : MapConfig} {net : Network} {ring : NodeRing NodeId} {s s' s₀ : QueueCluster} {n m primary : NodeId}
  {p q : Nat} {id task_id : TaskId} {task : Task} {entry : TaskEntry}

/-- The views and the entries kept for a task are the same. -/
structure SameTask (id : TaskId) (s s' : QueueCluster) : Prop where
  view : s'.view = s.view
  task : ∀ m q, s'.task m q id = s.task m q id

theorem SameTask.refl (s : QueueCluster) : SameTask id s s := ⟨rfl, fun _ _ => rfl⟩

theorem SameTask.trans {s₁ s₂ s₃ : QueueCluster} (h : SameTask id s₁ s₂) (h' : SameTask id s₂ s₃) : SameTask id s₁ s₃ :=
  ⟨h'.view.trans h.view, fun m q => (h'.task m q).trans (h.task m q)⟩

/-- The nodes agree, and no more is said than about the views and one task's entries. -/
structure About (cfg : MapConfig) (ring : NodeRing NodeId) (id : TaskId) (Inv : QueueCluster → Prop) : Prop where
  view : ∀ s, Inv s → Agreed cfg ring s.view
  same : ∀ s s', SameTask id s s' → Inv s → Inv s'

theorem About.watches {Inv : QueueCluster → Prop} (h : About cfg ring id Inv) : Watches cfg ring (fun _ _ _ => True) Inv := by
  refine ⟨h.view, fun s s' hview hnode _ => h.same s s' ⟨hview, fun m q => ?_⟩, fun s n addr req _ => ?_⟩
  · rw [QueueCluster.task, hnode, QueueCluster.task]
  · exact h.same s (s.send n addr req) ⟨rfl, fun _ _ => rfl⟩

/-! ## What a submission leaves behind -/

/-- Where a task is kept, an owner of its partition keeps it, and nobody has claimed it. -/
structure Arriving (cfg : MapConfig) (ring : NodeRing NodeId) (id : TaskId) (s : QueueCluster) : Prop where
  view : Agreed cfg ring s.view
  kept : ∀ m q entry, s.task m q id = some entry → q = partition_of cfg id ∧ m ∈ cfg.owners ring q ∧ entry.Unclaimed

theorem about_arriving : About cfg ring id (Arriving cfg ring id) := by
  refine ⟨fun s hs => hs.view, fun s s' hsame hs => ⟨hsame.view ▸ hs.view, fun m q entry hentry => ?_⟩⟩
  rw [hsame.task] at hentry
  exact hs.kept m q entry hentry

theorem store_local_arrives (hm : m ∈ cfg.owners ring (partition_of cfg id)) (hnew : entry.Unclaimed) :
    Keeps (QueueSem cfg net) (Arriving cfg ring id) (store_local m (partition_of cfg id) id entry) fun _ => True := by
  refine Keeps.perform fun s u s' hs hact => ⟨trivial, ?_⟩
  refine ⟨(act_frame hact).1 ▸ hs.view, fun o q old hold => ?_⟩
  cases hbefore : s.task o q id with
  | some before =>
    obtain ⟨after, hafter, heffect⟩ := entry_effect hact hbefore
    rw [hold] at hafter
    cases hafter
    cases heffect with
    | kept => exact hs.kept o q old hbefore
    | claimed he => cases he
    | completed he => cases he
  | none =>
    rcases entry_origin hact hbefore hold with he | ⟨_, he, -⟩
    · cases he
      exact ⟨rfl, hm, hnew⟩
    · cases he

/-- After an accepted submission: every owner keeps the task, nobody else does,
and only the primary's entry may have been claimed. -/
structure Settled (cfg : MapConfig) (ring : NodeRing NodeId) (id : TaskId) (s : QueueCluster) : Prop where
  view : Agreed cfg ring s.view
  everywhere : Everywhere cfg ring s (partition_of cfg id) id
  owned : ∀ m q entry, s.task m q id = some entry → q = partition_of cfg id ∧ m ∈ cfg.owners ring q
  waiting : ∀ m q entry, s.task m q id = some entry →
    entry.Unclaimed ∨ (cfg.owners ring q).head? = some m ∧ entry.status ≠ .Pending

/-- The id is new, so no entry has it. -/
theorem submit_settles (hview : Agreed cfg ring s.view) (hn : n ∈ ring.ids)
    (hused : ∀ m q id, (s.task m q id).isSome → id.text ∈ s.used)
    (h : Runs (QueueSem cfg net) Eq (submit cfg n task) s (.ok id) s') :
    Settled cfg ring id s' := by
  have heverywhere : Everywhere cfg ring s' (partition_of cfg id) id := submit_returns hview hn h.alone
  obtain ⟨task_id, s₁, hid, hrest⟩ := runs_bind.1 h
  obtain ⟨hfresh, rfl⟩ := runs_perform.1 hid
  have hnone : Arriving cfg ring task_id (s.use task_id) := by
    refine ⟨hview, fun m q entry hentry => absurd (hused m q task_id ?_) hfresh⟩
    exact Option.isSome_iff_exists.2 ⟨entry, hentry⟩
  have hkeeps : Keeps (QueueSem cfg net) (Arriving cfg ring task_id) (submit_as cfg n task task_id) fun r =>
      ∀ id', r = .ok id' → id' = task_id :=
    keeps_submit_as about_arriving.watches hn task (fun m hm entry hnew => store_local_arrives hm hnew)
      fun _ _ _ _ _ => ⟨fun _ _ => trivial, fun _ => trivial⟩
  obtain ⟨hsame, harrived⟩ := Keeps.runs hkeeps hnone hrest
  obtain rfl : id = task_id := hsame id rfl
  refine ⟨harrived.view, heverywhere, fun m q entry hentry => ?_, fun m q entry hentry => ?_⟩
  · obtain ⟨hq, hm, -⟩ := harrived.kept m q entry hentry
    exact ⟨hq, hm⟩
  · exact .inl (harrived.kept m q entry hentry).2.2

/-! ## What happens to it later -/

theorem Settled.same (h : Settled cfg ring id s) (hsame : SameTask id s s') : Settled cfg ring id s' := by
  refine ⟨hsame.view ▸ h.view, fun o ho => ?_, fun m q entry hentry => ?_, fun m q entry hentry => ?_⟩
  · rw [hsame.task]
    exact h.everywhere o ho
  · rw [hsame.task] at hentry
    exact h.owned m q entry hentry
  · rw [hsame.task] at hentry
    exact h.waiting m q entry hentry

theorem about_same (h : Agreed cfg ring s₀.view) : About cfg ring id (SameTask id s₀) :=
  ⟨fun _ hs => hs.view ▸ h, fun _ _ hsame hs => hs.trans hsame⟩

/-- Owners have an entry already. -/
theorem apply_keeps (h : Settled cfg ring id s₀) (hn : n ∈ cfg.owners ring q) {entries : List (TaskId × TaskEntry)}
    (hentries : ∀ entry, (id, entry) ∈ entries → q = partition_of cfg id) :
    Keeps (QueueSem cfg net) (SameTask id s₀) (apply_partition_entries n q entries) fun _ => True := by
  refine Keeps.perform fun s u s' hs hact => ⟨trivial, hs.trans ⟨?_, fun o p => ?_⟩⟩
  · exact (act_frame hact).1
  · obtain rfl : s' = s.apply_partition_entries n q entries := hact
    cases hbefore : s.task o p id with
    | some entry => exact entry_apply hbefore
    | none =>
      refine Option.eq_none_iff_forall_ne_some.2 fun entry hentry => ?_
      rcases QueueCluster.task_of_apply_partition_entries hentry with hold | ⟨rfl, hmem⟩
      · rw [hbefore] at hold
        cases hold
      · -- the entry would be new at an owner
        obtain rfl : p = partition_of cfg id := hentries entry hmem
        have hthere : (s.task n (partition_of cfg id) id).isSome := (h.same hs).everywhere n hn
        by_cases ho : o = n
        · rw [ho] at hbefore
          rw [hbefore] at hthere
          cases hthere
        · rw [QueueCluster.apply_partition_entries, QueueCluster.task_set_partition, if_neg fun h => ho h.1, hbefore] at hentry
          cases hentry

theorem resync_keeps (h : Settled cfg ring id s₀) (hn : n ∈ cfg.owners ring q) (hm : m ∈ ring.ids) :
    Keeps (QueueSem cfg net) (SameTask id s₀) (resync n m q) fun _ => True := by
  refine keeps_resync (about_same h.view).watches (fun _ _ _ => trivial) (MapConfig.mem_of_mem_owners hn) hm
    (fun s hs entry hmem => ?_) fun entries hentries => apply_keeps h hn hentries
  exact ((h.same hs).owned m q entry (QueueCluster.mem_dump_partition.1 hmem)).1

/-- A resync changes nothing about an accepted task. -/
theorem sync_queue_partitions_keeps (h : Settled cfg ring id s₀) (hn : n ∈ ring.ids) :
    Keeps (QueueSem cfg net) (SameTask id s₀) (sync_queue_partitions cfg n) fun _ => True := by
  refine keeps_sync_queue_partitions (about_same h.view).watches hn fun q hq => ?_
  refine keeps_sync_queue_partition (about_same h.view).watches hn (fun s m _ _ _ hm => ?_) fun m hm _ => ?_
  · exact resync_keeps h hq (MapConfig.mem_of_mem_owners (List.mem_of_getElem? hm))
  · exact resync_keeps h hq (MapConfig.mem_of_mem_owners (List.mem_of_mem_head? hm))

/-- A worker at `primary` claims, renews or completes a task, a clock moves, or
a node of the ring resyncs while nothing is lost. -/
inductive TaskStep (cfg : MapConfig) (ring : NodeRing NodeId) (primary : NodeId) : QueueCluster → QueueCluster → Prop
  | tick {s : QueueCluster} (clock : NodeId → Nat) : TaskStep cfg ring primary s { s with clock }
  | claim {s s' : QueueCluster} (task_id : TaskId) {r : Result Bool} :
    Runs (QueueSem cfg .reliable) Eq (try_claim_task cfg primary task_id) s r s' → TaskStep cfg ring primary s s'
  | renew {s : QueueCluster} (task_id : TaskId) :
    TaskStep cfg ring primary s (s.renew primary (partition_of cfg task_id) task_id).2
  | complete {s s' : QueueCluster} (task_id : TaskId) (result : Except String Unit) {r : Result Unit} :
    Runs (QueueSem cfg .reliable) Eq (complete_task cfg primary task_id result) s r s' → TaskStep cfg ring primary s s'
  | sync {s s' : QueueCluster} {n : NodeId} {r : Result Unit} : n ∈ ring.ids →
    Runs (QueueSem cfg .reliable) Eq (sync_queue_partitions cfg n) s r s' → TaskStep cfg ring primary s s'

/-- The primary's entry may change, if it is not pending afterwards or still nobody's. -/
theorem Settled.put (h : Settled cfg ring id s) (hprimary : (cfg.owners ring (partition_of cfg id)).head? = some primary)
    {entry entry' : TaskEntry} (hentry : s.task primary p task_id = some entry)
    (hstatus : entry.Unclaimed ∨ entry.status ≠ .Pending → entry'.Unclaimed ∨ entry'.status ≠ .Pending) :
    Settled cfg ring id (s.put_task primary p task_id entry') := by
  have hput : ∀ m q, (s.put_task primary p task_id entry').task m q id =
      if m = primary ∧ q = p ∧ id = task_id then some entry' else s.task m q id := fun m q => QueueCluster.task_put_task entry'
  refine ⟨h.view, fun o ho => ?_, fun m q new hnew => ?_, fun m q new hnew => ?_⟩
  · rw [hput]
    split
    · rfl
    · exact h.everywhere o ho
  · rw [hput] at hnew
    split at hnew
    · rename_i hsame
      obtain ⟨rfl, rfl, rfl⟩ := hsame
      exact h.owned m q entry hentry
    · exact h.owned m q new hnew
  · rw [hput] at hnew
    split at hnew
    · rename_i hsame
      obtain ⟨rfl, rfl, rfl⟩ := hsame
      obtain ⟨rfl, -⟩ := h.owned m q entry hentry
      cases hnew
      have hold : entry.Unclaimed ∨ entry.status ≠ .Pending := (h.waiting m _ entry hentry).imp_right And.right
      exact (hstatus hold).imp_right fun hnot => ⟨hprimary, hnot⟩
    · exact h.waiting m q new hnew

theorem Settled.step (h : Settled cfg ring id s) (hprimary : (cfg.owners ring (partition_of cfg id)).head? = some primary)
    (hstep : TaskStep cfg ring primary s s') : Settled cfg ring id s' := by
  cases hstep with
  | tick clock => exact h.same ⟨rfl, fun _ _ => rfl⟩
  | claim task_id hrun =>
    obtain ⟨claimed, s₁, hclaim, hend⟩ := runs_bind.1 hrun
    obtain ⟨-, rfl⟩ := runs_pure.1 hend
    obtain rfl : s₁ = (s.claim primary (partition_of cfg task_id) task_id).2 := congrArg Prod.snd (runs_perform.1 hclaim)
    rcases QueueCluster.claim_cases s primary (partition_of cfg task_id) task_id with hsame | ⟨entry, hentry, -, hput⟩
    · rw [hsame]
      exact h
    · rw [hput]
      exact h.put hprimary hentry fun _ => .inr (by simp)
  | renew task_id =>
    unfold QueueCluster.renew
    split
    · rename_i entry hentry
      split
      · rename_i hrun
        exact h.put hprimary hentry fun _ => .inr (by simp [hrun])
      · exact h
    · exact h
  | complete task_id result hrun =>
    obtain rfl : s' = (s.complete primary (partition_of cfg task_id) task_id result).2 :=
      congrArg Prod.snd (runs_perform.1 hrun)
    unfold QueueCluster.complete
    split
    · rename_i entry hentry
      refine h.put hprimary hentry fun _ => .inr ?_
      cases result with
      | ok _ => simp [QueueCluster.finished]
      | error e => simp [QueueCluster.finished]
    · exact h
  | sync hn hrun => exact h.same (Keeps.runs (sync_queue_partitions_keeps h hn) (.refl s) hrun).2

theorem Settled.steps (h : Settled cfg ring id s) (hprimary : (cfg.owners ring (partition_of cfg id)).head? = some primary)
    (hsteps : Relation.ReflTransGen (TaskStep cfg ring primary) s s') : Settled cfg ring id s' := by
  induction hsteps with
  | refl => exact h
  | tail _ hstep ih => exact ih.step hprimary hstep

/-! ## What a status query answers -/

section Query

/-- The text of the id survives the way through the URL. -/
def Routable (cfg : MapConfig) (id : TaskId) : Prop := cfg.route id.text = .ok id.text

theorem get_task_local_keeps (m : NodeId) : Keeps (QueueSem cfg net) (SameTask id s₀)
    (get_task_local cfg m id) fun o => o = s₀.task m (partition_of cfg id) id := by
  refine keeps_read fun s o s' hs hact => ?_
  obtain ⟨rfl, rfl⟩ := hact
  exact ⟨hs.task m _, rfl⟩

theorem fetch_remote_keeps (hview : Agreed cfg ring s₀.view) (hroute : Routable cfg id) (hn : n ∈ ring.ids) (hm : m ∈ ring.ids)
    (hentry : s₀.task m (partition_of cfg id) id = some entry) : Keeps (QueueSem cfg .reliable) (SameTask id s₀)
      (fetch_remote cfg n m id.text) fun r => r = .ok (some entry) := by
  refine (keeps_get_member (about_same hview).watches hn hm).bind fun o ho => ?_
  obtain ⟨node, rfl, haddr⟩ := ho
  have hserve : Keeps (QueueSem cfg .reliable) (SameTask id s₀) (route_get_task_internal cfg m id.text) fun response =>
      response = (.OK, ⟨some entry⟩) := by
    unfold route_get_task_internal
    rw [show cfg.route id.text = .ok id.text from hroute]
    refine (get_task_local_keeps m).bind fun o ho => ?_
    rw [hentry] at ho
    subst ho
    exact Keeps.pure rfl
  refine (keeps_request_answered (about_same hview).watches trivial haddr hserve (Nat.zero_lt_succ 2)).bind fun r hr => ?_
  obtain ⟨response, rfl, rfl⟩ := hr
  exact Keeps.pure rfl

/-- The local entry comes first, then the primary's. -/
theorem get_task_keeps (h : Settled cfg ring id s₀) (hroute : Routable cfg id) (hm : m ∈ ring.ids)
    (hprimary : (cfg.owners ring (partition_of cfg id)).head? = some primary)
    (hentry : s₀.task primary (partition_of cfg id) id = some entry) : Keeps (QueueSem cfg .reliable) (SameTask id s₀)
      (get_task cfg m id) fun o => o = some ((s₀.task m (partition_of cfg id) id).getD entry) := by
  refine (get_task_local_keeps m).bind fun o ho => ?_
  rw [← ho]
  cases o with
  | some task_entry => exact Keeps.pure rfl
  | none =>
    refine (keeps_get_owners (about_same h.view).watches hm _).bind fun owners howners => ?_
    cases owners with
    | nil =>
      rw [← howners] at hprimary
      cases hprimary
    | cons first backups =>
      rw [← howners] at hprimary
      obtain rfl : first = primary := Option.some.inj hprimary
      have hfirst : first ∈ ring.ids := MapConfig.mem_of_mem_owners (howners ▸ List.mem_cons_self)
      dsimp only
      split
      · rename_i hself
        subst hself
        rw [hentry] at ho
        cases ho
      · refine (fetch_remote_keeps h.view hroute hm hfirst hentry).bind fun r hr => ?_
        subst hr
        exact Keeps.pure rfl

theorem handle_get_task_status_keeps (h : Settled cfg ring id s₀) (hroute : Routable cfg id) (hm : m ∈ ring.ids)
    (hprimary : (cfg.owners ring (partition_of cfg id)).head? = some primary)
    (hentry : s₀.task primary (partition_of cfg id) id = some entry) : Keeps (QueueSem cfg .reliable) (SameTask id s₀)
      (handle_get_task_status cfg m id.text) fun answer =>
        answer = task_status id (some ((s₀.task m (partition_of cfg id) id).getD entry)) := by
  refine (keeps_get_owners (about_same h.view).watches hm _).bind fun owners _ => ?_
  split
  · refine (get_task_keeps h hroute hm hprimary hentry).bind fun o ho => ?_
    exact Keeps.pure (ho ▸ rfl)
  · refine (get_task_keeps h hroute hm hprimary hentry).bind fun o ho => ?_
    exact Keeps.pure (ho ▸ rfl)

/-- Asked about the task, node `m` answers with the status and the assignee of `entry`. -/
def Reports (cfg : MapConfig) (s : QueueCluster) (m : NodeId) (id : TaskId) (entry : TaskEntry) : Prop :=
  ∀ answer s', Runs (QueueSem cfg .reliable) Eq (handle_get_task_status cfg m id.text) s answer s' →
    ∃ response, answer = (.OK, some response) ∧ response.task_id = id ∧ response.status = entry.status ∧
      response.assigned_to = entry.assigned_to

/-- What the node answers is what it keeps, or else what the primary keeps. -/
theorem reports_iff (h : Settled cfg ring id s) (hroute : Routable cfg id) (hm : m ∈ ring.ids)
    (hprimary : (cfg.owners ring (partition_of cfg id)).head? = some primary)
    (hentry : s.task primary (partition_of cfg id) id = some entry) : Reports cfg s m id entry ↔
      ((s.task m (partition_of cfg id) id).getD entry).status = entry.status ∧
      ((s.task m (partition_of cfg id) id).getD entry).assigned_to = entry.assigned_to := by
  have hkeeps := handle_get_task_status_keeps h hroute hm hprimary hentry
  constructor
  · intro hreports
    have hint : ∀ e s, QueueSem cfg .reliable e s (QueueInt (answered cfg) (fun _ => none) e s).1
        (QueueInt (answered cfg) (fun _ => none) e s).2 := QueueInt_sem (allows_answered .reliable)
    have hrun := exec_runs (R := Eq) hint (handle_get_task_status cfg m id.text) s
    obtain ⟨response, hanswer, -, hstatus, hassigned⟩ := hreports _ _ hrun
    rw [(Keeps.runs hkeeps (.refl s) hrun).1] at hanswer
    cases hanswer
    exact ⟨hstatus, hassigned⟩
  · rintro ⟨hstatus, hassigned⟩ answer s' hrun
    refine ⟨_, (Keeps.runs hkeeps (.refl s) hrun).1, rfl, hstatus, hassigned⟩

end Query

/-- After an accepted submission and any steps at the primary, every node of the
ring answers for the task as the primary's entry has it if, and only if, the
node is no backup of the task or the primary's entry is pending. -/
theorem status_agrees_iff {s₁ s₂ : QueueCluster} (hs : Reachable cfg net s) (hview : Agreed cfg ring s.view) (hroute : Routable cfg id)
    (hn : n ∈ ring.ids) (hsubmit : Runs (QueueSem cfg net) Eq (submit cfg n task) s (.ok id) s₁)
    (hprimary : (cfg.owners ring (partition_of cfg id)).head? = some primary)
    (hsteps : Relation.ReflTransGen (TaskStep cfg ring primary) s₁ s₂) :
    ∃ entry, s₂.task primary (partition_of cfg id) id = some entry ∧
      ∀ m ∈ ring.ids, Reports cfg s₂ m id entry ↔ m ∉ (cfg.owners ring (partition_of cfg id)).tail ∨ entry.status = .Pending := by
  have hused : ∀ m q id, (s.task m q id).isSome → id.text ∈ s.used := by
    intro m q id hsome
    obtain ⟨entry, hentry⟩ := Option.isSome_iff_exists.1 hsome
    obtain ⟨view, clock, l, hreach⟩ := hs
    obtain ⟨gs, hsound⟩ := (tracked_of_steps hreach (tracked_empty view clock)).inv
    exact hsound.used id entry.task (.inl ⟨m, q, entry, hentry, rfl⟩)
  have hsettled : Settled cfg ring id s₂ := (submit_settles hview hn hused hsubmit).steps hprimary hsteps
  obtain ⟨entry, hentry⟩ := Option.isSome_iff_exists.1 (hsettled.everywhere primary (List.mem_of_mem_head? hprimary))
  refine ⟨entry, hentry, fun m hm => ?_⟩
  rw [reports_iff hsettled hroute hm hprimary hentry]
  obtain ⟨backups, howners⟩ : ∃ backups, cfg.owners ring (partition_of cfg id) = primary :: backups :=
    ⟨_, (List.cons_head?_tail hprimary).symm⟩
  have hnodup : primary ∉ backups ∧ backups.Nodup := List.nodup_cons.1 (howners ▸ cfg.owners_nodup ring _)
  rw [howners, List.tail_cons]
  cases hmine : s₂.task m (partition_of cfg id) id with
  | none =>
    -- every owner has an entry
    have hnot : m ∉ backups := by
      intro hmem
      have hsome := hsettled.everywhere m (howners ▸ List.mem_cons_of_mem _ hmem)
      rw [hmine] at hsome
      cases hsome
    exact ⟨fun _ => .inl hnot, fun _ => ⟨rfl, rfl⟩⟩
  | some mine =>
    obtain ⟨-, hm⟩ := hsettled.owned m _ mine hmine
    rw [howners] at hm
    rcases List.mem_cons.1 hm with rfl | hm
    · rw [hentry] at hmine
      cases hmine
      exact ⟨fun _ => .inl hnodup.1, fun _ => ⟨rfl, rfl⟩⟩
    · have hmine' : mine.Unclaimed := by
        refine (hsettled.waiting m _ mine hmine).resolve_right fun hfirst => hnodup.1 ?_
        rw [hprimary] at hfirst
        exact Option.some.inj hfirst.1 ▸ hm
      constructor
      · rintro ⟨hstatus, -⟩
        exact .inr (hstatus.symm.trans hmine'.1)
      · rintro (hnot | hpending)
        · exact absurd hm hnot
        · have hfresh : entry.Unclaimed :=
            (hsettled.waiting primary _ entry hentry).resolve_right fun h => h.2 hpending
          exact ⟨hmine'.1.trans hpending.symm, hmine'.2.1.trans hfresh.2.1.symm⟩

section Example

/-- Every request in the cluster `pair` is answered, and no handler panics. -/
theorem pair_answers (e : QueueAct) (s : QueueCluster) :
    QueueSem pair_cfg .reliable e s (QueueInt_pair e s).1 (QueueInt_pair e s).2 :=
  QueueInt_sem (allows_answered .reliable) e s

/-- Node a submits a task whose primary is node b. -/
def pair_accepted : Result TaskId × QueueCluster := exec QueueInt_pair (submit pair_cfg node_a index_task) pair_idle

theorem runs_pair_accepted :
    Runs (QueueSem pair_cfg .reliable) Eq (submit pair_cfg node_a index_task) pair_idle (.ok task_x) pair_accepted.2 := by
  have hrun := exec_runs (R := Eq) pair_answers (submit pair_cfg node_a index_task) pair_idle
  have hok : (exec QueueInt_pair (submit pair_cfg node_a index_task) pair_idle).1 = .ok task_x := by decide +kernel
  rwa [hok] at hrun

/-- A worker at the primary has claimed it. -/
def pair_claimed : QueueCluster := (exec QueueInt_pair (try_claim_task pair_cfg node_b task_x) pair_accepted.2).2

theorem steps_pair_claimed : Relation.ReflTransGen (TaskStep pair_cfg pair node_b) pair_accepted.2 pair_claimed :=
  .single (.claim task_x (exec_runs pair_answers _ _))

theorem owners_task_x : pair_cfg.owners pair (partition_of pair_cfg task_x) = [node_b, node_a] := by decide +kernel

theorem agreed_pair : Agreed pair_cfg pair (demo_view pair) := agreed_demo 2 (fun _ h => h) (by decide)

theorem status_at_backup : ∃ entry, pair_claimed.task node_b (partition_of pair_cfg task_x) task_x = some entry ∧
    ∀ m ∈ pair.ids, Reports pair_cfg pair_claimed m task_x entry ↔
      m ∉ (pair_cfg.owners pair (partition_of pair_cfg task_x)).tail ∨ entry.status = .Pending :=
  status_agrees_iff ⟨_, _, _, .refl⟩ agreed_pair rfl (n := node_a) (by decide) runs_pair_accepted
    (by rw [owners_task_x]; rfl) steps_pair_claimed

/-- Then the backup resyncs. -/
def pair_synced : Result Unit × QueueCluster := exec QueueInt_pair (sync_queue_partitions pair_cfg node_a) pair_claimed

theorem runs_pair_synced : Runs (QueueSem pair_cfg .reliable) Eq (sync_queue_partitions pair_cfg node_a) pair_claimed
    pair_synced.1 pair_synced.2 :=
  exec_runs pair_answers _ _

theorem settled_pair_claimed : Settled pair_cfg pair task_x pair_claimed := by
  have hsubmitted : Settled pair_cfg pair task_x pair_accepted.2 :=
    submit_settles (n := node_a) agreed_pair (by decide) (fun _ _ _ h => by cases h) runs_pair_accepted
  exact hsubmitted.steps (by rw [owners_task_x]; rfl) steps_pair_claimed

/-- The primary's entry is running; the backup says the task is pending. -/
theorem backup_never_catches_up :
    ¬ ∀ (cfg : MapConfig) (net : Network) (ring : NodeRing NodeId) (s s₁ s₂ : QueueCluster) (n m primary : NodeId) (task : Task)
      (id : TaskId) (entry : TaskEntry), Reachable cfg net s → Agreed cfg ring s.view → Routable cfg id → n ∈ ring.ids →
      Runs (QueueSem cfg net) Eq (submit cfg n task) s (.ok id) s₁ →
      (cfg.owners ring (partition_of cfg id)).head? = some primary →
      Relation.ReflTransGen (TaskStep cfg ring primary) s₁ s₂ →
      s₂.task primary (partition_of cfg id) id = some entry → m ∈ ring.ids → Reports cfg s₂ m id entry := by
  intro h
  have hprimary : (pair_cfg.owners pair (partition_of pair_cfg task_x)).head? = some node_b := by rw [owners_task_x]; rfl
  have hsame : SameTask task_x pair_claimed pair_synced.2 :=
    (Keeps.runs (sync_queue_partitions_keeps settled_pair_claimed (by decide)) (.refl _) runs_pair_synced).2
  have hrunning : (pair_claimed.task node_b (partition_of pair_cfg task_x) task_x).map TaskEntry.status = some .Running := by
    decide +kernel
  have hpending : (pair_claimed.task node_a (partition_of pair_cfg task_x) task_x).map TaskEntry.status = some .Pending := by
    decide +kernel
  obtain ⟨entry, hentry, hstatus⟩ := Option.map_eq_some_iff.1 hrunning
  obtain ⟨copy, hcopy, hcopied⟩ := Option.map_eq_some_iff.1 hpending
  rw [← hsame.task] at hentry hcopy
  have hreports := h pair_cfg .reliable pair pair_idle pair_accepted.2 pair_synced.2 node_a node_a node_b index_task task_x entry
    ⟨_, _, _, .refl⟩ agreed_pair rfl (by decide) runs_pair_accepted hprimary
    (steps_pair_claimed.tail (.sync (by decide) runs_pair_synced)) hentry (by decide)
  have hagree := ((reports_iff (settled_pair_claimed.same hsame) rfl (by decide) hprimary hentry).1 hreports).1
  rw [hcopy, Option.getD_some, hstatus, hcopied] at hagree
  cases hagree

end Example

end Executor
