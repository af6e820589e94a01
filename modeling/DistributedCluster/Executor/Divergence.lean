import DistributedCluster.Executor.Acceptance
import DistributedCluster.Storage.Divergence
/-!
# Forwarded tasks under different views

The queue forwards tasks as the map forwards writes: the receiver keeps the entry
and sends it to all owners in its view but the first.
-/

namespace Executor

open Async

variable {cfg : MapConfig} {ring ringS ringR : NodeRing NodeId} {view : NodeId → MembershipService} {n m b receiver : NodeId}
  {p : Nat} {id : TaskId} {task : Task} {entry : TaskEntry} {s s' : QueueCluster}

/-! ## Entries that stay absent -/

/-- Node `m` has no entry of the task. -/
def Absent (view : NodeId → MembershipService) (p : Nat) (id : TaskId) (m : NodeId) (s : QueueCluster) : Prop :=
  s.view = view ∧ s.task m p id = none

/-- What a program returns while it stores no entry at node `m`, and no message is
lost. -/
abbrev LeavesAbsent {α : Type} (cfg : MapConfig) (view : NodeId → MembershipService) (p : Nat) (id : TaskId) (m : NodeId)
    (q : QueueM α) (Q : α → Prop) : Prop :=
  Keeps (QueueSem cfg .reliable) (Absent view p id m) q Q

theorem membership_absent : LeavesAbsent cfg view p id m (membership n) fun x => x = view n :=
  Keeps.perform fun s x s' hs hact => by
    obtain ⟨rfl, rfl⟩ := hact
    exact ⟨by rw [hs.1], hs⟩

theorem get_owners_absent (h : Knows cfg ring n (view n)) :
    LeavesAbsent cfg view p id m (get_owners cfg n p) fun owners => owners = cfg.owners ring p := by
  refine membership_absent.bind ?_
  rintro _ rfl
  exact Keeps.pure (h.get_owners p)

theorem get_member_absent : LeavesAbsent cfg view p id m (get_member n b) fun o => o = (view n).get_member b := by
  refine membership_absent.bind ?_
  rintro _ rfl
  exact Keeps.pure rfl

theorem store_local_absent (hb : b ≠ m) : LeavesAbsent cfg view p id m (store_local b p id entry) fun _ => True :=
  Keeps.perform fun s x s' hs hact => by
    obtain rfl : s' = s.store_local b p id entry := hact
    refine ⟨trivial, hs.1, ?_⟩
    rw [QueueCluster.task_store_local, if_neg fun h => hb h.1.symm]
    exact hs.2

theorem pending_entry_absent : LeavesAbsent cfg view p id m (pending_entry n task) fun _ => True := by
  have hnow : LeavesAbsent cfg view p id m (now_ms n) fun _ => True :=
    Keeps.perform fun s x s' hs hact => by
      obtain ⟨-, rfl⟩ := hact
      exact ⟨trivial, hs⟩
  exact hnow.bind fun _ _ => Keeps.pure trivial

/-- A request to a known node is answered by it. -/
theorem request_absent {ρ : Type} {addr : SocketAddr} {req : TaskRequest} {handler : NodeId → QueueM ρ} {Q : ρ → Prop}
    (hb : cfg.host n addr = some b) (hserve : LeavesAbsent cfg view p id m (handler b) Q) :
    LeavesAbsent cfg view p id m (request n addr req handler 3) fun r => ∃ x, r = .ok x ∧ Q x := by
  refine Keeps.retry_answered (m := b) (fun i => ?_) hserve (by decide)
  refine Keeps.perform fun s fate s' hs hact => ?_
  obtain ⟨hfate, rfl⟩ := hact
  exact ⟨Network.reliable_allows hb hfate, hs⟩

theorem replicate_task_to_backup_absent (h : Knows cfg ring n (view n)) (hb : b ∈ ring.ids) (hne : b ≠ m) :
    LeavesAbsent cfg view p id m (replicate_task_to_backup n b p id entry) fun r => r = .ok () := by
  obtain ⟨node, hnode, hhost⟩ := h.reach b hb
  refine get_member_absent.bind ?_
  rintro _ rfl
  rw [hnode]
  have hserve : LeavesAbsent cfg view p id m (handle_replicate_task b ⟨p, id, entry⟩) fun status => status = .OK :=
    (store_local_absent hne).bind fun _ _ => Keeps.pure rfl
  refine (request_absent hhost hserve).bind ?_
  rintro _ ⟨_, rfl, rfl⟩
  exact Keeps.pure rfl

theorem replicate_all_absent (h : Knows cfg ring n (view n)) {bs : List NodeId} (hbs : ∀ b ∈ bs, b ∈ ring.ids ∧ b ≠ m) :
    LeavesAbsent cfg view p id m (replicate_all n p id entry bs) fun r => r = .ok () := by
  induction bs with
  | nil => exact Keeps.pure rfl
  | cons b bs ih =>
    obtain ⟨hmem, hne⟩ := hbs b List.mem_cons_self
    refine (replicate_task_to_backup_absent h hmem hne).bind ?_
    rintro _ rfl
    exact ih fun b hb => hbs b (List.mem_cons_of_mem _ hb)

theorem handle_internal_submit_task_absent (h : Knows cfg ringR receiver (view receiver)) (hne : receiver ≠ m)
    (hm : m ∉ (cfg.owners ringR p).tail) :
    LeavesAbsent cfg view p id m (handle_internal_submit_task cfg receiver ⟨p, id, task⟩) fun response => response.1 = .OK := by
  refine pending_entry_absent.bind fun entry _ => ?_
  have hstore : LeavesAbsent cfg view p id m (store_as_primary cfg receiver p id entry) fun r => r = .ok () := by
    refine (store_local_absent hne).bind fun _ _ => (get_owners_absent h).bind ?_
    rintro _ rfl
    refine replicate_all_absent h fun b hb => ⟨MapConfig.mem_of_mem_owners (List.mem_of_mem_tail hb), ?_⟩
    rintro rfl
    exact hm hb
  refine hstore.bind ?_
  rintro _ rfl
  exact Keeps.pure rfl

theorem forward_task_absent (hS : Knows cfg ringS n (view n)) (hmem : receiver ∈ ringS.ids)
    (hR : Knows cfg ringR receiver (view receiver)) (hne : receiver ≠ m) (hm : m ∉ (cfg.owners ringR p).tail) :
    LeavesAbsent cfg view p id m (forward_task cfg n receiver p id task) fun r => r = .ok () := by
  obtain ⟨node, hnode, hhost⟩ := hS.reach receiver hmem
  refine get_member_absent.bind ?_
  rintro _ rfl
  rw [hnode]
  refine (request_absent hhost (handle_internal_submit_task_absent hR hne hm)).bind ?_
  rintro _ ⟨response, rfl, hok⟩
  dsimp only
  rw [hok]
  exact Keeps.pure rfl

/-! ## A forwarded submission -/

/-- The submission can be acknowledged without an entry at a first owner that is not
the receiver. -/
theorem exists_absent (hS : Knows cfg ringS n (s.view n)) (hR : Knows cfg ringR receiver (s.view receiver))
    (hprimary : (cfg.owners ringS (partition_of cfg id)).head? = some receiver) (hne : n ≠ receiver)
    (hnew : id.text ∉ s.used) (hnone : s.task m (partition_of cfg id) id = none) (hm : m ≠ receiver)
    (htail : m ∉ (cfg.owners ringR (partition_of cfg id)).tail) :
    ∃ s', Runs (QueueSem cfg .reliable) Eq (submit cfg n task) s (.ok id) s' ∧
      s'.task m (partition_of cfg id) id = none := by
  have hmem : receiver ∈ ringS.ids := MapConfig.mem_of_mem_owners (List.mem_of_mem_head? hprimary)
  obtain ⟨r, s', hforward⟩ := Runs.total (R := Eq) (QueueSem_total cfg .reliable)
    (forward_task cfg n receiver (partition_of cfg id) id task) (s.use id)
  have hkeeps : LeavesAbsent cfg s.view (partition_of cfg id) id m (forward_task cfg n receiver (partition_of cfg id) id task)
      fun r => r = .ok () := forward_task_absent hS hmem hR (Ne.symm hm) htail
  have hstart : Absent s.view (partition_of cfg id) id m (s.use id) := ⟨rfl, hnone⟩
  obtain ⟨rfl, habsent⟩ := hkeeps.runs hstart hforward
  obtain ⟨primary, backups, hcons⟩ := MapConfig.owners_cons cfg hS.self (partition_of cfg id)
  obtain rfl : primary = receiver := by
    rw [hcons] at hprimary
    exact Option.some.inj hprimary
  refine ⟨s', runs_bind.2 ⟨id, s.use id, runs_perform.2 ⟨hnew, rfl⟩, ?_⟩, habsent.2⟩
  refine runs_bind.2 ⟨primary :: backups, s.use id, ?_, ?_⟩
  · have howners : cfg.partitioner.get_owners (s.view n) (partition_of cfg id) = primary :: backups := by
      rw [hS.get_owners, hcons]
    exact runs_bind.2 ⟨s.view n, s.use id, runs_perform.2 ⟨rfl, rfl⟩, runs_pure.2 ⟨howners.symm, rfl⟩⟩
  · dsimp only
    rw [if_neg (Ne.symm hne)]
    exact runs_bind.2 ⟨.ok (), s', hforward, runs_pure.2 ⟨rfl, rfl⟩⟩

/-- A forwarded task that is acknowledged is kept by every owner in the receiver's
view, whatever runs beside it, if and only if each of them keeps it already, or is
the receiver or a later owner. -/
theorem forwarded_task_iff (hS : Knows cfg ringS n (s.view n)) (hR : Knows cfg ringR receiver (s.view receiver))
    (hprimary : (cfg.owners ringS (partition_of cfg id)).head? = some receiver) (hne : n ≠ receiver)
    (hnew : id.text ∉ s.used) :
    (∀ s', Runs (QueueSem cfg .reliable) Grown (submit cfg n task) s (.ok id) s' →
        ∀ m ∈ cfg.owners ringR (partition_of cfg id), (s'.task m (partition_of cfg id) id).isSome) ↔
      ∀ m ∈ cfg.owners ringR (partition_of cfg id), (s.task m (partition_of cfg id) id).isSome ∨
        m = receiver ∨ m ∈ (cfg.owners ringR (partition_of cfg id)).tail := by
  constructor
  · intro h m hmem
    by_contra hcon
    obtain ⟨hnone, hout⟩ := not_or.1 hcon
    obtain ⟨hm, htail⟩ := not_or.1 hout
    obtain ⟨s', hrun, habsent⟩ := exists_absent hS hR hprimary hne hnew (Option.not_isSome_iff_eq_none.1 hnone) hm htail
    have hsome := h s' hrun.alone m hmem
    rw [habsent] at hsome
    cases hsome
  · intro h s' hrun m hmem
    have hkept : Grown s s' := RunsBeside.grown hrun
    rcases h m hmem with hthere | hm
    · exact hkept.kept _ _ _ hthere
    obtain ⟨primary, s₁, s₂, hhead, h₁, h₂, hbranch⟩ := submit_cases hS.self hS.get_owners hrun
    obtain rfl : primary = receiver := Option.some.inj (hhead.symm.trans hprimary)
    obtain ⟨hself, -⟩ | hforward := hbranch
    · exact absurd hself.symm hne
    have htarget : Reach cfg s₁.view n primary := by
      rw [h₁.view]
      exact hS.reach primary (MapConfig.mem_of_mem_owners (List.mem_of_mem_head? hprimary))
    have hreach : ∀ b ∈ (cfg.partitioner.get_owners (s₁.view primary) (partition_of cfg id)).tail,
        Reach cfg s₁.view primary b := by
      rw [h₁.view, hR.get_owners]
      exact fun b hb => hR.reach b (MapConfig.mem_of_mem_owners (List.mem_of_mem_tail hb))
    obtain ⟨hself, htails⟩ := forward_task_stores htarget hreach hforward
    rw [h₁.view, hR.get_owners] at htails
    rcases hm with rfl | hm
    · exact h₂.kept _ _ _ hself
    · exact h₂.kept _ _ _ (htails m hm)

/-- What is acknowledged by the first owner in the sender's view is at all owners in
the receiver's view if and only if: for a write, each of them has the value, or is
the receiver or a later owner other than the sender, and the operation is new there;
for a task, each of them keeps it, or is the receiver or a later owner. -/
theorem forwarded_iff {K V : Type} [DecidableEq K] [Key K] [Json V] {sender : NodeId}
    (hS : Knows cfg ringS sender (view sender)) (hR : Knows cfg ringR receiver (view receiver)) (hne : sender ≠ receiver)
    (s : MapCluster K V) (hs : s.view = view) (q : QueueCluster) (hq : q.view = view) (key : K) (value : V) (op_id : String)
    (id : TaskId) (task : Task) :
    ((cfg.owners ringS (cfg.partition_of key)).head? = some receiver → ¬ s.recorded sender op_id →
      ((∀ s', Runs (MapSem cfg .reliable) (DistributedMap.Apart op_id (cfg.partition_of key) key)
            (DistributedMap.put_with_op cfg sender key value op_id) s (.ok ()) s' →
          ∀ m ∈ cfg.owners ringR (cfg.partition_of key), s'.stored m (cfg.partition_of key) key = some value) ↔
        ∀ m ∈ cfg.owners ringR (cfg.partition_of key), s.stored m (cfg.partition_of key) key = some value ∨
          ¬ s.recorded receiver op_id ∧ ¬ s.recorded m op_id ∧ m ≠ sender ∧
            (m = receiver ∨ m ∈ (cfg.owners ringR (cfg.partition_of key)).tail))) ∧
    ((cfg.owners ringS (partition_of cfg id)).head? = some receiver → id.text ∉ q.used →
      ((∀ q', Runs (QueueSem cfg .reliable) Grown (submit cfg sender task) q (.ok id) q' →
          ∀ m ∈ cfg.owners ringR (partition_of cfg id), (q'.task m (partition_of cfg id) id).isSome) ↔
        ∀ m ∈ cfg.owners ringR (partition_of cfg id), (q.task m (partition_of cfg id) id).isSome ∨
          m = receiver ∨ m ∈ (cfg.owners ringR (partition_of cfg id)).tail)) := by
  subst hs
  refine ⟨fun hput hnew => DistributedMap.forwarded_put_iff hS hR hput hne hnew, fun htask hnew => ?_⟩
  rw [← hq] at hS hR
  exact forwarded_task_iff hS hR htask hne hnew

section Example

open CompactJson

def pair_bc : NodeRing NodeId := ⟨[node_b, node_c], by decide⟩

/-- Node c has not heard of node a yet, the others see all three. -/
def late_view (n : NodeId) : MembershipService := if n = node_c then demo_view pair_bc n else demo_view trio n

def id_e : TaskId := ⟨"e"⟩

theorem knows_late_sender : Knows trio_cfg pair_bc node_c (late_view node_c) :=
  knows_demo (by decide) (by decide) (by decide)

theorem knows_late_receiver : Knows trio_cfg trio node_b (late_view node_b) :=
  knows_demo (by decide) (by decide) (by decide)

theorem forwarded_late :
    (∀ q', Runs (QueueSem trio_cfg .reliable) Grown (submit trio_cfg node_c index_task) (.empty late_view fun _ => 0)
          (.ok id_e) q' →
        ∀ m ∈ trio_cfg.owners trio (partition_of trio_cfg id_e), (q'.task m (partition_of trio_cfg id_e) id_e).isSome) ↔
      ∀ m ∈ trio_cfg.owners trio (partition_of trio_cfg id_e),
        ((QueueCluster.empty late_view fun _ => 0).task m (partition_of trio_cfg id_e) id_e).isSome ∨
          m = node_b ∨ m ∈ (trio_cfg.owners trio (partition_of trio_cfg id_e)).tail :=
  (forwarded_iff knows_late_sender knows_late_receiver (by decide) (MapCluster.empty late_view : MapCluster String Bool) rfl
    (.empty late_view fun _ => 0) rfl "e" true "op" id_e index_task).2 (by decide +kernel) (Finset.notMem_empty _)

/-- Node c forwards to node b, which is only the second owner in its own view and
acknowledges without a copy at node a, the first. -/
theorem first_owner_passed_over :
    (¬ ∀ (cfg : MapConfig) (ringS ringR : NodeRing NodeId) (sender receiver : NodeId) (s s' : MapCluster String Bool)
        (key : String) (value : Bool) (op_id : String), Knows cfg ringS sender (s.view sender) →
        Knows cfg ringR receiver (s.view receiver) → sender ≠ receiver →
        (cfg.owners ringS (cfg.partition_of key)).head? = some receiver → (∀ m, ¬ s.recorded m op_id) →
        Runs (MapSem cfg .reliable) Eq (DistributedMap.put_with_op cfg sender key value op_id) s (.ok ()) s' →
        ∀ m ∈ cfg.owners ringR (cfg.partition_of key), s'.stored m (cfg.partition_of key) key = some value) ∧
    ¬ ∀ (cfg : MapConfig) (ringS ringR : NodeRing NodeId) (sender receiver : NodeId) (q q' : QueueCluster) (task : Task)
        (id : TaskId), Knows cfg ringS sender (q.view sender) → Knows cfg ringR receiver (q.view receiver) →
        sender ≠ receiver → (cfg.owners ringS (partition_of cfg id)).head? = some receiver →
        Runs (QueueSem cfg .reliable) Eq (submit cfg sender task) q (.ok id) q' →
        ∀ m ∈ cfg.owners ringR (partition_of cfg id), (q'.task m (partition_of cfg id) id).isSome := by
  have hfirst : node_a ∈ trio_cfg.owners trio (trio_cfg.partition_of "e") ∧ node_a ≠ node_b ∧
      node_a ∉ (trio_cfg.owners trio (trio_cfg.partition_of "e")).tail := by decide +kernel
  obtain ⟨hmem, hne, htail⟩ := hfirst
  have hprimary : (trio_cfg.owners pair_bc (trio_cfg.partition_of "e")).head? = some node_b := by decide +kernel
  constructor
  · intro h
    let s : MapCluster String Bool := .empty late_view
    have hnew : ∀ m, ¬ s.recorded m "op" := fun m => Finset.notMem_empty _
    obtain ⟨s', hrun, hsame⟩ : ∃ s', Runs (MapSem trio_cfg .reliable) Eq
        (DistributedMap.put_with_op trio_cfg node_c "e" true "op") s (.ok ()) s' ∧
        s'.stored node_a (trio_cfg.partition_of "e") "e" = s.stored node_a (trio_cfg.partition_of "e") "e" :=
      DistributedMap.exists_away knows_late_sender knows_late_receiver hprimary (by decide) (hnew node_c)
        (.inr (.inr (.inr ⟨hne, htail⟩)))
    have hstored := h trio_cfg pair_bc trio node_c node_b s s' "e" true "op" knows_late_sender knows_late_receiver
      (by decide) hprimary hnew hrun node_a hmem
    rw [hsame] at hstored
    cases hstored
  · intro h
    let q : QueueCluster := .empty late_view fun _ => 0
    have hused : id_e.text ∉ q.used := Finset.notMem_empty _
    obtain ⟨q', hrun, hnone⟩ : ∃ q', Runs (QueueSem trio_cfg .reliable) Eq (submit trio_cfg node_c index_task) q
        (.ok id_e) q' ∧ q'.task node_a (partition_of trio_cfg id_e) id_e = none :=
      exists_absent knows_late_sender knows_late_receiver hprimary (by decide) hused rfl hne htail
    have hsome := h trio_cfg pair_bc trio node_c node_b q q' index_task id_e knows_late_sender knows_late_receiver
      (by decide) hprimary hrun node_a hmem
    rw [hnone] at hsome
    cases hsome

end Example

end Executor
