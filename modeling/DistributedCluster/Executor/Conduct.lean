import DistributedCluster.Executor.Discipline
import DistributedCluster.Storage.Agreement
/-!
# What the queue's programs keep

Among nodes that agree, a submission stores at owners only and a resync applies what
it was sent. An invariant that these keep, whole programs keep.
-/

namespace Executor

open Async

variable {cfg : MapConfig} {net : Network} {ring : NodeRing NodeId} {n m : NodeId} {p q : Nat} {id : TaskId}
  {entry : TaskEntry}

variable {Inv : QueueCluster → Prop}

theorem keeps_read {e : QueueAct} {Q : QueueI.Ans e → Prop} (h : ∀ s x s', Inv s → QueueSem cfg net e s x s' → Q x ∧ s' = s) :
    Keeps (QueueSem cfg net) Inv (act e) Q := by
  refine Keeps.perform fun s x s' hs hact => ?_
  obtain ⟨hx, rfl⟩ := h s x s' hs hact
  exact ⟨hx, hs⟩

theorem keeps_pending_entry (n : NodeId) (task : Task) :
    Keeps (QueueSem cfg net) Inv (pending_entry n task) TaskEntry.Unclaimed := by
  have hnow : Keeps (QueueSem cfg net) Inv (now_ms n) fun _ => True :=
    keeps_read fun _ _ _ _ hact => ⟨trivial, hact.2⟩
  exact hnow.bind fun _ _ => Keeps.pure ⟨rfl, rfl, rfl⟩

/-- The nodes agree, and no more is said than about the views, what the nodes keep and
what was sent. Requests that are as `Fits` says may be sent. -/
structure Watches (cfg : MapConfig) (ring : NodeRing NodeId) (Fits : NodeId → SocketAddr → TaskRequest → Prop)
    (Inv : QueueCluster → Prop) : Prop where
  view : ∀ s, Inv s → Agreed cfg ring s.view
  same : ∀ s s', s'.view = s.view → s'.node = s.node → s'.sent = s.sent → Inv s → Inv s'
  send : ∀ s n addr req, Fits n addr req → Inv s → Inv (s.send n addr req)

theorem keeps_sync_each {partitions : List Nat}
    (h : ∀ q ∈ partitions, Keeps (QueueSem cfg net) Inv (sync_queue_partition cfg n q) fun _ => True) :
    Keeps (QueueSem cfg net) Inv (sync_each cfg n partitions) fun _ => True := by
  induction partitions with
  | nil => exact Keeps.pure trivial
  | cons q partitions ih =>
    refine (h q List.mem_cons_self).bind fun _ _ => ?_
    exact ih fun q hq => h q (List.mem_cons_of_mem _ hq)

section Agreeing

variable {Fits : NodeId → SocketAddr → TaskRequest → Prop} (hInv : Watches cfg ring Fits Inv)
include hInv

theorem keeps_membership (hn : n ∈ ring.ids) : Keeps (QueueSem cfg net) Inv (membership n) fun view =>
    PartitionManager.Sees view ring ∧ view.local_id = n ∧
      ∀ m ∈ ring.ids, ∃ node, view.get_member m = some node ∧ cfg.host n node.http_addr = some m := by
  refine keeps_read fun s view s' hs hact => ?_
  obtain ⟨rfl, rfl⟩ := hact
  have hview := hInv.view s' hs
  exact ⟨⟨hview.sees n hn, hview.local_id n hn, hview.reach n hn⟩, rfl⟩

theorem keeps_get_owners (hn : n ∈ ring.ids) (q : Nat) :
    Keeps (QueueSem cfg net) Inv (get_owners cfg n q) fun owners => owners = cfg.owners ring q := by
  refine (keeps_membership hInv hn).bind fun view hview => Keeps.pure ?_
  exact PartitionManager.get_owners_eq _ hview.1 q

theorem keeps_partitions_where (hn : n ∈ ring.ids) (mine : List NodeId → Bool) :
    Keeps (QueueSem cfg net) Inv (partitions_where cfg n mine) fun partitions => partitions = cfg.partitions_where ring mine := by
  have hlook : ∀ q, Keeps (QueueSem cfg net) Inv (do pure (mine (← get_owners cfg n q))) fun x => x = mine (cfg.owners ring q) :=
    fun q => (keeps_get_owners hInv hn q).bind fun _ howners => Keeps.pure (congrArg mine howners)
  exact (Keeps.filterM hlook _).post fun _ h => h.eq_filter

/-- The partitions a node syncs are those it owns. -/
theorem keeps_target_partitions (hn : n ∈ ring.ids) :
    Keeps (QueueSem cfg net) Inv (target_partitions cfg n) fun partitions =>
      ∀ q, q ∈ partitions ↔ q < cfg.partitioner.num_partitions ∧ n ∈ cfg.owners ring q := by
  refine (keeps_partitions_where hInv hn _).bind fun primaries hprimaries => ?_
  refine (keeps_partitions_where hInv hn _).bind fun backups hbackups => ?_
  rw [hprimaries, hbackups]
  exact keeps_read fun s partitions s' _ hact => ⟨fun q => hact.1.mem_iff.trans MapConfig.mem_target_partitions, hact.2⟩

theorem keeps_get_member (hn : n ∈ ring.ids) (hm : m ∈ ring.ids) : Keeps (QueueSem cfg net) Inv (get_member n m) fun o =>
    ∃ node, o = some node ∧ cfg.host n node.http_addr = some m := by
  refine (keeps_membership hInv hn).bind fun view hview => Keeps.pure ?_
  exact hview.2.2 m hm

theorem keeps_send {addr : SocketAddr} {req : TaskRequest} (hfits : Fits n addr req) (i : Nat) :
    Keeps (QueueSem cfg net) Inv (send n addr req i) fun f => net.allows (cfg.host n) addr f := by
  refine Keeps.perform fun s f s' hs hact => ?_
  obtain ⟨hfate, rfl⟩ := hact
  exact ⟨hfate, hInv.send s n addr req hfits hs⟩

theorem keeps_request {ρ : Type} {addr : SocketAddr} {req : TaskRequest} (hfits : Fits n addr req)
    (haddr : cfg.host n addr = some m) {serve : NodeId → QueueM ρ} {Q : ρ → Prop}
    (hserve : Keeps (QueueSem cfg net) Inv (serve m) Q) (attempts : Nat) :
    Keeps (QueueSem cfg net) Inv (request n addr req serve attempts) fun r => ∀ x, r = .ok x → Q x := by
  refine Keeps.retry (fun i => (keeps_send hInv hfits i).post fun f hf => ?_) hserve attempts
  cases f with
  | lost => exact .inl rfl
  | unheard m' =>
    rw [show cfg.host n addr = some m' from hf.1] at haddr
    exact .inr (.inl (congrArg Fate.unheard (Option.some.inj haddr)))
  | replied m' =>
    rw [show cfg.host n addr = some m' from hf] at haddr
    exact .inr (.inr (congrArg Fate.replied (Option.some.inj haddr)))

/-- A reliable network answers. -/
theorem keeps_request_answered {ρ : Type} {addr : SocketAddr} {req : TaskRequest} (hfits : Fits n addr req)
    (haddr : cfg.host n addr = some m) {serve : NodeId → QueueM ρ} {Q : ρ → Prop}
    (hserve : Keeps (QueueSem cfg .reliable) Inv (serve m) Q) {attempts : Nat} (hpos : 0 < attempts) :
    Keeps (QueueSem cfg .reliable) Inv (request n addr req serve attempts) fun r => ∃ x, r = .ok x ∧ Q x :=
  Keeps.retry_answered (fun i => (keeps_send hInv hfits i).post fun _ hf => Network.reliable_allows haddr hf) hserve hpos

/-! ## One submission -/

section Submission

variable (hstore : ∀ m ∈ cfg.owners ring p, ∀ entry, entry.Unclaimed →
    Keeps (QueueSem cfg net) Inv (store_local m p id entry) fun _ => True)
  (hfits : ∀ n m addr, m ∈ cfg.owners ring p → cfg.host n addr = some m →
    (∀ entry, entry.Unclaimed → Fits n addr (.replicate ⟨p, id, entry⟩)) ∧ ∀ task, Fits n addr (.internal_submit ⟨p, id, task⟩))

include hstore hfits

theorem keeps_replicate_task_to_backup (hn : n ∈ ring.ids) (hm : m ∈ cfg.owners ring p) (hnew : entry.Unclaimed) :
    Keeps (QueueSem cfg net) Inv (replicate_task_to_backup n m p id entry) fun _ => True := by
  refine (keeps_get_member hInv hn (MapConfig.mem_of_mem_owners hm)).bind fun o ho => ?_
  obtain ⟨node, rfl, haddr⟩ := ho
  have hserve : Keeps (QueueSem cfg net) Inv (handle_replicate_task m ⟨p, id, entry⟩) fun _ => True :=
    (hstore m hm entry hnew).bind fun _ _ => Keeps.pure trivial
  refine (keeps_request hInv ((hfits n m _ hm haddr).1 entry hnew) haddr hserve 3).bind fun r _ => ?_
  cases r with
  | error e => exact Keeps.pure trivial
  | ok status =>
    dsimp only
    split
    · exact Keeps.pure trivial
    · exact Keeps.pure trivial

theorem keeps_replicate_all (hn : n ∈ ring.ids) {backups : List NodeId} (hbackups : ∀ b ∈ backups, b ∈ cfg.owners ring p)
    (hnew : entry.Unclaimed) : Keeps (QueueSem cfg net) Inv (replicate_all n p id entry backups) fun _ => True := by
  induction backups with
  | nil => exact Keeps.pure trivial
  | cons backup backups ih =>
    refine (keeps_replicate_task_to_backup hInv hstore hfits hn (hbackups backup List.mem_cons_self) hnew).bind fun r _ => ?_
    cases r with
    | ok _ => exact ih fun b hb => hbackups b (List.mem_cons_of_mem _ hb)
    | error e => exact Keeps.pure trivial

theorem keeps_store_as_primary (hn : n ∈ cfg.owners ring p) (hnew : entry.Unclaimed) :
    Keeps (QueueSem cfg net) Inv (store_as_primary cfg n p id entry) fun _ => True := by
  have hring : n ∈ ring.ids := MapConfig.mem_of_mem_owners hn
  refine (hstore n hn entry hnew).bind fun _ _ => ?_
  refine (keeps_get_owners hInv hring p).bind fun owners howners => ?_
  subst howners
  exact keeps_replicate_all hInv hstore hfits hring (fun b hb => List.mem_of_mem_tail hb) hnew

theorem keeps_handle_internal_submit_task (hn : n ∈ cfg.owners ring p) (task : Task) :
    Keeps (QueueSem cfg net) Inv (handle_internal_submit_task cfg n ⟨p, id, task⟩) fun _ => True := by
  refine (keeps_pending_entry n task).bind fun entry hnew => ?_
  refine (keeps_store_as_primary hInv hstore hfits hn hnew).bind fun r _ => ?_
  cases r with
  | ok _ => exact Keeps.pure trivial
  | error e => exact Keeps.pure trivial

theorem keeps_forward_task (hn : n ∈ ring.ids) (hm : m ∈ cfg.owners ring p) (task : Task) :
    Keeps (QueueSem cfg net) Inv (forward_task cfg n m p id task) fun _ => True := by
  refine (keeps_get_member hInv hn (MapConfig.mem_of_mem_owners hm)).bind fun o ho => ?_
  obtain ⟨node, rfl, haddr⟩ := ho
  have hserve := keeps_handle_internal_submit_task hInv hstore hfits hm task
  refine (keeps_request hInv ((hfits n m _ hm haddr).2 task) haddr hserve 3).bind fun r _ => ?_
  cases r with
  | error e => exact Keeps.pure trivial
  | ok response =>
    dsimp only
    split
    · exact Keeps.pure trivial
    · exact Keeps.pure trivial

end Submission

/-- `submit` once it has its id. -/
def submit_as (cfg : MapConfig) (n : NodeId) (task : Task) (task_id : TaskId) : QueueM (Result TaskId) := do
  let owners ← get_owners cfg n (partition_of cfg task_id)
  match owners with
  | [] => do
    let entry ← pending_entry n task
    store_local n (partition_of cfg task_id) task_id entry
    pure (.ok task_id)
  | primary :: _ =>
    if primary = n then do
      let entry ← pending_entry n task
      match ← store_as_primary cfg n (partition_of cfg task_id) task_id entry with
      | .ok _ => pure (.ok task_id)
      | .error e => pure (.error e)
    else do
      match ← forward_task cfg n primary (partition_of cfg task_id) task_id task with
      | .ok _ => pure (.ok task_id)
      | .error e => pure (.error e)

theorem keeps_submit_as (hn : n ∈ ring.ids) (task : Task)
    (hstore : ∀ m ∈ cfg.owners ring (partition_of cfg id), ∀ entry, entry.Unclaimed →
      Keeps (QueueSem cfg net) Inv (store_local m (partition_of cfg id) id entry) fun _ => True)
    (hfits : ∀ n m addr, m ∈ cfg.owners ring (partition_of cfg id) → cfg.host n addr = some m →
      (∀ entry, entry.Unclaimed → Fits n addr (.replicate ⟨partition_of cfg id, id, entry⟩)) ∧
        ∀ task, Fits n addr (.internal_submit ⟨partition_of cfg id, id, task⟩)) :
    Keeps (QueueSem cfg net) Inv (submit_as cfg n task id) fun r => ∀ id', r = .ok id' → id' = id := by
  have hok : ∀ id', (Except.ok id : Result TaskId) = .ok id' → id' = id := fun id' h => (Except.ok.inj h).symm
  refine (keeps_get_owners hInv hn _).bind fun owners howners => ?_
  subst howners
  obtain ⟨primary, backups, hlist⟩ := cfg.owners_cons hn (partition_of cfg id)
  have hprimary : primary ∈ cfg.owners ring (partition_of cfg id) := hlist ▸ List.mem_cons_self
  rw [hlist]
  dsimp only
  split
  · rename_i hself
    subst hself
    refine (keeps_pending_entry primary task).bind fun entry hnew => ?_
    refine (keeps_store_as_primary hInv hstore hfits hprimary hnew).bind fun r _ => ?_
    cases r with
    | ok _ => exact Keeps.pure hok
    | error e => exact Keeps.pure fun id' h => by cases h
  · refine (keeps_forward_task hInv hstore hfits hn hprimary task).bind fun r _ => ?_
    cases r with
    | ok _ => exact Keeps.pure hok
    | error e => exact Keeps.pure fun id' h => by cases h

/-! ## One resync -/

section Resync

variable (hdumps : ∀ n addr q, Fits n addr (.partition_dump q))
include hdumps

omit hInv hdumps in
theorem keeps_handle_task_partition_dump {E : List (TaskId × TaskEntry) → Prop} (hdump : ∀ s, Inv s → E (s.dump_partition m q)) :
    Keeps (QueueSem cfg net) Inv (handle_task_partition_dump m q) fun dump => E dump.entries := by
  have hread : Keeps (QueueSem cfg net) Inv (dump_partition m q) E := by
    refine keeps_read fun s entries s' hs hact => ?_
    obtain ⟨rfl, rfl⟩ := hact
    exact ⟨hdump s' hs, rfl⟩
  exact hread.bind fun _ hentries => Keeps.pure hentries

theorem keeps_fetch_partition (hn : n ∈ ring.ids) (hm : m ∈ ring.ids) {E : List (TaskId × TaskEntry) → Prop}
    (hdump : ∀ s, Inv s → E (s.dump_partition m q)) :
    Keeps (QueueSem cfg net) Inv (fetch_partition n m q) fun r => ∀ entries, r = .ok entries → E entries := by
  refine (keeps_get_member hInv hn hm).bind fun o ho => ?_
  obtain ⟨node, rfl, haddr⟩ := ho
  refine (keeps_request hInv (hdumps n _ q) haddr (keeps_handle_task_partition_dump hdump) 3).bind fun r hr => ?_
  cases r with
  | error e => exact Keeps.pure fun entries he => by cases he
  | ok dump => exact Keeps.pure fun entries he => Except.ok.inj he ▸ hr dump rfl

theorem keeps_resync (hn : n ∈ ring.ids) (hm : m ∈ ring.ids) {E : List (TaskId × TaskEntry) → Prop}
    (hdump : ∀ s, Inv s → E (s.dump_partition m q))
    (happly : ∀ entries, E entries → Keeps (QueueSem cfg net) Inv (apply_partition_entries n q entries) fun _ => True) :
    Keeps (QueueSem cfg net) Inv (resync n m q) fun _ => True := by
  refine (keeps_fetch_partition hInv hdumps hn hm hdump).bind fun r hr => ?_
  cases r with
  | error e => exact Keeps.pure trivial
  | ok entries =>
    dsimp only
    split
    · exact Keeps.pure trivial
    · exact happly entries (hr entries rfl)

omit hdumps

/-- The first owner resyncs from the second if it has nothing of the partition, the
others from the first. -/
theorem keeps_sync_queue_partition (hn : n ∈ ring.ids)
    (hfirst : ∀ s m, Inv s → (cfg.owners ring q).head? = some n → s.has_partition n q = false →
      (cfg.owners ring q)[1]? = some m → Keeps (QueueSem cfg net) Inv (resync n m q) fun _ => True)
    (hlater : ∀ m, (cfg.owners ring q).head? = some m → m ≠ n → Keeps (QueueSem cfg net) Inv (resync n m q) fun _ => True) :
    Keeps (QueueSem cfg net) Inv (sync_queue_partition cfg n q) fun _ => True := by
  refine (keeps_get_owners hInv hn q).bind fun owners howners => ?_
  subst howners
  cases hlist : cfg.owners ring q with
  | nil => exact Keeps.pure trivial
  | cons primary backups =>
    rw [hlist] at hfirst hlater
    dsimp only
    split
    · rename_i hself
      subst hself
      have hhas : Keeps (QueueSem cfg net) Inv (has_partition primary q) fun b =>
          b = false → ∃ s, Inv s ∧ s.has_partition primary q = false := by
        refine keeps_read fun s b s' hs hact => ⟨fun hb => ⟨s, hs, ?_⟩, hact.2⟩
        exact hact.1.symm.trans hb
      refine hhas.bind fun b hb => ?_
      cases b with
      | true => exact Keeps.pure trivial
      | false =>
        obtain ⟨s, hs, hnone⟩ := hb rfl
        cases backups with
        | nil => exact Keeps.pure trivial
        | cons source_owner backups => exact hfirst s source_owner hs rfl hnone rfl
    · rename_i hother
      exact hlater primary rfl hother

theorem keeps_sync_queue_partitions (hn : n ∈ ring.ids)
    (h : ∀ q, n ∈ cfg.owners ring q → Keeps (QueueSem cfg net) Inv (sync_queue_partition cfg n q) fun _ => True) :
    Keeps (QueueSem cfg net) Inv (sync_queue_partitions cfg n) fun _ => True := by
  refine (keeps_target_partitions hInv hn).bind fun partitions hpartitions => ?_
  exact (keeps_sync_each fun q hq => h q ((hpartitions q).1 hq).2).bind fun _ _ => Keeps.pure trivial

end Resync

end Agreeing

/-! ## One pass of a worker -/

/-- Neither stores an entry nor sends a request. -/
def QueueAct.Quiet : QueueAct → Prop
  | .store_local .. | .apply_partition_entries .. | .send .. => False
  | _ => True

theorem act_quiet {s s' : QueueCluster} {e : QueueAct} {x : QueueI.Ans e} (he : e.Quiet) (h : QueueSem cfg net e s x s') :
    s'.view = s.view ∧ (∀ y ∈ s'.sent, y ∈ s.sent) ∧ ∀ m q id, (s'.task m q id).isSome = (s.task m q id).isSome := by
  obtain ⟨hview, -, hsent⟩ := act_frame h
  refine ⟨hview, fun y hy => (hsent y hy).resolve_right ?_, fun m q id => ?_⟩
  · rintro ⟨i, rfl⟩
    exact he
  · cases hold : s.task m q id with
    | some entry =>
      obtain ⟨entry', hentry', -⟩ := entry_effect h hold
      rw [hentry']
      rfl
    | none =>
      cases hnew : s'.task m q id with
      | none => rfl
      | some entry =>
        rcases entry_origin h hold hnew with rfl | ⟨entries, rfl, -⟩
        · exact he.elim
        · exact he.elim

section Worker

variable (hkept : ∀ s s' : QueueCluster, s'.view = s.view → (∀ y ∈ s'.sent, y ∈ s.sent) →
  (∀ m q id, (s'.task m q id).isSome = (s.task m q id).isSome) → Inv s → Inv s')
include hkept

theorem keeps_quiet {e : QueueAct} (he : e.Quiet) : Keeps (QueueSem cfg net) Inv (act e) fun _ => True := by
  refine Keeps.perform fun s x s' hs hact => ⟨trivial, ?_⟩
  obtain ⟨hview, hsent, htask⟩ := act_quiet he hact
  exact hkept s s' hview hsent htask hs

theorem keeps_execute_with_lease (n : NodeId) (task_id : TaskId) (task : Task) :
    Keeps (QueueSem cfg net) Inv (execute_with_lease cfg n task_id task) fun _ => True := by
  refine (keeps_quiet hkept (e := .spawn_renewal n task_id) trivial).bind fun _ _ => ?_
  refine (keeps_quiet hkept (e := .execute n task) trivial).bind fun result _ => ?_
  cases result with
  | none => exact Keeps.pure trivial
  | some result =>
    refine (keeps_quiet hkept (e := .abort_renewal n task_id) trivial).bind fun _ _ => ?_
    exact (keeps_quiet hkept (e := .complete n _ task_id result) trivial).bind fun _ _ => Keeps.pure trivial

end Worker

end Executor
