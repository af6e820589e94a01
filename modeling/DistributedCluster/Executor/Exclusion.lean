import DistributedCluster.Executor.Acceptance
/-!
# Exclusion

A claim, a renewal and a completion are written to the copy of the node that
works on the task, and nowhere else. As long as that node is the primary in
every view, nobody else claims the task. A node that becomes primary with a
copy that is still pending runs the task again.
-/

namespace Executor

open Async

variable {cfg : MapConfig} {net : Network} {s s' : QueueCluster} {c c' : QueueCluster × QueuePool} {g : Ghost}
  {gs : Multiset Ghost} {primary n m : NodeId} {p : Nat} {id : TaskId}

/-- Every node sees `primary` as the primary of the partition. -/
def LedBy (cfg : MapConfig) (primary : NodeId) (p : Nat) (view : NodeId → MembershipService) : Prop :=
  ∀ n, (cfg.partitioner.get_owners (view n) p).head? = some primary

/-- The node's copy of the task has left the pending state. -/
def Begun (cfg : MapConfig) (s : QueueCluster) (n : NodeId) (id : TaskId) : Prop :=
  ∃ entry, s.task n (partition_of cfg id) id = some entry ∧ entry.status ≠ .Pending

/-- Nobody but the primary has seen itself lead the partition, and whatever copy
of a task in it is not pending comes from the primary's. -/
structure Primary (cfg : MapConfig) (primary : NodeId) (p : Nat) (s : QueueCluster) (gs : Multiset Ghost) : Prop where
  sound : Sound cfg s gs
  led : LedBy cfg primary p s.view
  leads : ∀ g ∈ gs, ∀ n, g.leads n p → n = primary
  copies : ∀ n id, partition_of cfg id = p → Begun cfg s n id → Begun cfg s primary id
  begun : ∀ g ∈ gs, ∀ id, partition_of cfg id = p → g.begun id → Begun cfg s primary id

/-- A task that has left the pending state does not return to it. -/
theorem begun_act {e : QueueAct} {x : QueueI.Ans e} (hact : QueueSem cfg net e s x s')
    (hbegun : Begun cfg s n id) : Begun cfg s' n id := by
  obtain ⟨entry, hentry, hst⟩ := hbegun
  obtain ⟨entry', hentry', heffect⟩ := entry_effect hact hentry
  refine ⟨entry', hentry', ?_⟩
  cases heffect with
  | kept => exact hst
  | claimed _ _ _ => exact fun h => by cases h
  | @completed result _ => cases result <;> exact fun h => by cases h

/-- Only the primary's own claim takes a task out of the pending state. -/
theorem copies_act (h : Primary cfg primary p s (g ::ₘ gs)) {job : Job} {e : QueueAct} {x : QueueI.Ans e}
    (hmay : may cfg job g e) (hact : QueueSem cfg net e s x s') (hid : partition_of cfg id = p)
    (hbegun : Begun cfg s' n id) : Begun cfg s' primary id := by
  have hkeeps : Begun cfg s primary id → Begun cfg s' primary id := begun_act hact
  obtain ⟨entry', hentry', hst⟩ := hbegun
  have hg := Multiset.mem_cons_self g gs
  cases hold : s.task n (partition_of cfg id) id with
  | none =>
    rcases entry_origin hact hold hentry' with rfl | ⟨entries, rfl, hmem⟩
    · exact absurd hmay.2.1.1 hst
    · exact hkeeps (h.begun g hg id hid (hmay.2.2 id ⟨entry', hmem, hst⟩))
  | some entry =>
    obtain ⟨entry'', hentry'', heffect⟩ := entry_effect hact hold
    rw [hentry'] at hentry''
    cases hentry''
    cases heffect with
    | kept => exact hkeeps (h.copies n id hid ⟨_, hold, hst⟩)
    | claimed he _ _ =>
      subst he
      obtain ⟨-, -, -, hleads⟩ := hmay
      obtain rfl := h.leads g hg n (hid ▸ hleads)
      exact ⟨_, hentry', hst⟩
    | completed he =>
      subst he
      have hrun := h.sound.completes hmay hold
      exact hkeeps (h.copies n id hid ⟨entry, hold, by rw [hrun]; exact fun h => by cases h⟩)

theorem primary_act (h : Primary cfg primary p s (g ::ₘ gs)) {job : Job} {e : QueueAct} {x : QueueI.Ans e}
    (hmay : may cfg job g e) (hact : QueueSem cfg net e s x s') :
    gives cfg e x ∧ Primary cfg primary p s' (next cfg g e x ::ₘ gs) := by
  obtain ⟨hgives, hsound⟩ := sound_act h.sound hmay hact
  have hg := Multiset.mem_cons_self g gs
  have hview := (act_frame hact).1
  have hnext_leads : ∀ n, (next cfg g e x).leads n p → n = primary := by
    intro n hleads
    cases e with
    | membership m =>
      -- every view has the same first owner
      obtain ⟨rfl, rfl⟩ := hact
      rcases hleads with hleads | ⟨rfl, hhead⟩
      · exact h.leads g hg n hleads
      · rw [h.led n] at hhead
        exact (Option.some.inj hhead).symm
    | claim m q id =>
      simp only [next] at hleads
      split at hleads
      · exact h.leads g hg n hleads
      · exact h.leads g hg n hleads
    | _ => exact h.leads g hg n hleads
  have hnext_begun : ∀ id, partition_of cfg id = p → (next cfg g e x).begun id → Begun cfg s primary id := by
    intro id hid hbegun
    cases e with
    | dump_partition m q =>
      -- what it dumps is what some copy holds
      obtain ⟨rfl, rfl⟩ := hact
      rcases hbegun with hbegun | ⟨entry, hmem, hst⟩
      · exact h.begun g hg id hid hbegun
      · have hentry := QueueCluster.mem_dump_partition.1 hmem
        obtain rfl := (h.sound.stored m q id entry hentry).1
        exact h.copies m id hid ⟨entry, hentry, hst⟩
    | claim m q id' =>
      simp only [next] at hbegun
      split at hbegun
      · exact h.begun g hg id hid hbegun
      · exact h.begun g hg id hid hbegun
    | _ => exact h.begun g hg id hid hbegun
  refine ⟨hgives, hsound, hview ▸ h.led, fun g' hg' n hleads => ?_,
    fun n id hid hbegun => copies_act h hmay hact hid hbegun, fun g' hg' id hid hbegun => ?_⟩
  · rcases Multiset.mem_cons.1 hg' with rfl | hg'
    · exact hnext_leads n hleads
    · exact h.leads g' (Multiset.mem_cons_of_mem hg') n hleads
  · rcases Multiset.mem_cons.1 hg' with rfl | hg'
    · exact begun_act hact (hnext_begun id hid hbegun)
    · exact begun_act hact (h.begun g' (Multiset.mem_cons_of_mem hg') id hid hbegun)

theorem primary_retire (h : Primary cfg primary p s (g ::ₘ gs)) : Primary cfg primary p s gs :=
  ⟨sound_retire h.sound, h.led, fun g' hg' => h.leads g' (Multiset.mem_cons_of_mem hg'), h.copies,
    fun g' hg' => h.begun g' (Multiset.mem_cons_of_mem hg')⟩

theorem primary_start (h : Primary cfg primary p s gs) {role : Role} (hrole : (Ghost.start role).held = none)
    {facts : TaskId → Task → Prop} (hfacts : ∀ id task, facts id task → ∃ x ∈ s.sent, x.2.2.Names id task) :
    Primary cfg primary p s ((Ghost.start role).learn facts ::ₘ gs) := by
  refine ⟨sound_start h.sound hrole hfacts, h.led, fun g hg n hleads => ?_, h.copies, fun g hg id hid hbegun => ?_⟩
  · rcases Multiset.mem_cons.1 hg with rfl | hg
    · exact hleads.elim
    · exact h.leads g hg n hleads
  · rcases Multiset.mem_cons.1 hg with rfl | hg
    · exact hbegun.elim
    · exact h.begun g hg id hid hbegun

theorem primary_around {l : QueuePool} (h : Primary cfg primary p s gs)
    (haround : Around cfg (LedBy cfg primary p) s l s') : Primary cfg primary p s' gs := by
  have hsound := sound_around h.sound haround
  cases haround with
  | membership view hled => exact ⟨hsound, hled, h.leads, h.copies, h.begun⟩
  | beside hbeside =>
    cases hbeside with
    | tick clock => exact ⟨hsound, h.led, h.leads, h.copies, h.begun⟩
    | @renewal m task_id _ =>
      obtain ⟨-, -, hview, htask⟩ := renewal_round_entry cfg s m task_id
      have hsame : ∀ n id, Begun cfg (renewal_round cfg s m task_id) n id ↔ Begun cfg s n id := by
        intro n id
        unfold Begun
        rcases htask n (partition_of cfg id) id with hkept | ⟨entry, lease, hold, -, hnew⟩
        · rw [hkept]
        · rw [hold, hnew]
          simp
      refine ⟨hsound, by rw [hview]; exact h.led, h.leads, fun n id hid hbegun => ?_, fun g hg id hid hbegun => ?_⟩
      · exact (hsame primary id).2 (h.copies n id hid ((hsame n id).1 hbegun))
      · exact (hsame primary id).2 (h.begun g hg id hid hbegun)

/-- Runs in which `primary` leads the partition in every view. -/
abbrev LedSteps (cfg : MapConfig) (net : Network) (primary : NodeId) (p : Nat) :
    QueueCluster × QueuePool → QueueCluster × QueuePool → Prop :=
  StepsWithin cfg net (LedBy cfg primary p)

theorem primary_of_steps {view : NodeId → MembershipService} {clock : NodeId → Nat} (hview : LedBy cfg primary p view)
    (h : LedSteps cfg net primary p (.empty view clock, []) c) :
    Pool.Tracked (discipline cfg) (Primary cfg primary p) Answered c := by
  refine Pool.tracked_steps (fun _ _ _ _ _ _ _ hinv hmay hact => primary_act hinv hmay hact)
    (fun _ _ _ hinv => primary_retire hinv)
    (fun _ _ _ _ hl hstart => tracked_spawn hl hstart (fun _ hinv => hinv.sound.sent) fun _ _ _ hrole hfacts hinv =>
      primary_start hinv hrole hfacts)
    (fun _ _ _ _ hinv haround => primary_around hinv haround) h (Pool.tracked_nil ?_)
  · refine ⟨sound_empty view clock, hview, fun g hg => absurd hg (Multiset.notMem_zero g), ?_,
      fun g hg => absurd hg (Multiset.notMem_zero g)⟩
    rintro n id - ⟨entry, hentry, -⟩
    cases hentry

/-- A claim is the primary's, of a task no copy of which has left the pending state. -/
theorem claims_of_primary (hc : Pool.Tracked (discipline cfg) (Primary cfg primary p) Answered c)
    (hid : partition_of cfg id = p) (h : Claims n id c c') : n = primary ∧ ∀ m, ¬ Begun cfg c.1 m id := by
  have hpending := h.pending
  obtain ⟨job, q, k, l₁, l₂, s', hl, -, -⟩ := h
  obtain ⟨s, l⟩ := c
  obtain rfl : l = l₁ ++ (job, .call (QueueAct.claim n q id) k) :: l₂ := hl
  obtain ⟨g, gs, hinv, hobeys, -, -⟩ := hc.process
  have hmay : may cfg job g (.claim n q id) := hobeys.1
  obtain ⟨-, -, rfl, hleads⟩ := hmay
  obtain rfl := hinv.leads g (Multiset.mem_cons_self g gs) n (hid ▸ hleads)
  refine ⟨rfl, fun m hbegun => ?_⟩
  obtain ⟨q', entry, -, hentry, hst, -, -⟩ := hpending
  obtain rfl := (hinv.sound.stored _ _ _ _ hentry).1
  obtain ⟨entry', hentry', hst'⟩ := hinv.copies m id hid hbegun
  exact hst' (Option.some.inj (hentry'.symm.trans hentry) ▸ hst)

/-- In every run in which all views name one node the primary of the task's
partition, only that node claims the task, and only while every copy is pending:
never once a node holds it running, completed or failed. -/
theorem lease_exclusive {view : NodeId → MembershipService} {clock : NodeId → Nat}
    (hview : LedBy cfg primary (partition_of cfg id) view)
    (h : LedSteps cfg net primary (partition_of cfg id) (.empty view clock, []) c) :
    (∀ n c', Claims n id c c' → n = primary) ∧
    ∀ m entry, c.1.task m (partition_of cfg id) id = some entry → entry.status ≠ .Pending →
      ∀ n c', ¬ Claims n id c c' := by
  have hc := primary_of_steps hview h
  refine ⟨fun n c' hclaim => (claims_of_primary hc rfl hclaim).1, fun m entry hentry hst n c' hclaim => ?_⟩
  exact (claims_of_primary hc rfl hclaim).2 m ⟨entry, hentry, hst⟩

section Example

/-- The next action of the process is to claim the task. -/
def claims_next (n : NodeId) (p : Nat) (id : TaskId) : QueueM (Option (Result TaskId)) → Bool
  | .call (.claim m q id') _ => decide (m = n ∧ q = p ∧ id' = id)
  | _ => false

theorem claims_of_next {job : Job} {q : QueueM (Option (Result TaskId))} {l : QueuePool}
    (h : claims_next n p id q = true) (hclaim : (s.claim n p id).1 = true) : ∃ c', Claims n id (s, (job, q) :: l) c' := by
  unfold claims_next at h
  split at h
  · rename_i k
    obtain ⟨rfl, rfl, rfl⟩ := of_decide_eq_true h
    exact ⟨_, job, _, k, [], l, _, rfl, Prod.ext hclaim.symm rfl, rfl⟩
  · cases h

/-- A task has been submitted at the backup of its partition. -/
def pair_held : QueueCluster := (exec QueueInt_pair (unattended (handle_submit_task pair_cfg node_a index_task)) pair_idle).2

/-- The primary's worker has listed the task and is about to claim it. -/
def contender : QueueM (Option (Result TaskId)) × QueueCluster :=
  advance QueueInt_pair 384 (unattended (worker_loop pair_cfg node_b)) pair_held

/-- Another worker of the primary has been faster, and the backup has had a pass and a
resync in between. -/
def beaten : QueueCluster :=
  (exec QueueInt_pair (unattended (sync_queue_partitions pair_cfg node_a))
    (exec QueueInt_pair (unattended (worker_loop pair_cfg node_b))
      (exec QueueInt_pair (unattended (worker_loop pair_cfg node_a)) contender.2).2).2).2

def pair_contest : QueuePool := [(.worker node_b, contender.1)]

theorem led_pair : LedBy pair_cfg node_b (partition_of pair_cfg task_x) (demo_view pair) := by
  intro n
  have hsees : PartitionManager.Sees (demo_view pair n) pair := sees_settled pair demo_addr n
  rw [PartitionManager.get_owners_eq _ hsees]
  decide +kernel

theorem steps_contender : LedSteps pair_cfg .lossy node_b (partition_of pair_cfg task_x) (pair_idle, []) (contender.2, pair_contest) :=
  ((steps_alone pair_sem .refl (.submission node_a index_task)).tail (.spawn (.worker node_b) _ (.worker node_b))).trans
    (Pool.steps_advance (S := fun _ => QueueSem pair_cfg .lossy) pair_sem 384 _ pair_held [] [])

/-- Both nodes have a copy of the task and look for work. Only the primary is about to
claim it, and once another worker of it has, nobody does. -/
theorem contender_not_claiming :
    (∃ n c', Claims n task_x (contender.2, pair_contest) c') ∧
    (∀ n c', Claims n task_x (contender.2, pair_contest) c' → n = node_b) ∧
    ¬ ∃ n c', Claims n task_x (beaten, pair_contest) c' := by
  have hsteps : LedSteps pair_cfg .lossy node_b (partition_of pair_cfg task_x) (pair_idle, []) (beaten, pair_contest) :=
    steps_alone pair_sem (steps_alone pair_sem (steps_alone pair_sem steps_contender (.worker node_a)) (.worker node_b))
      (.resync node_a)
  have hnone : ∀ s l, LedSteps pair_cfg .lossy node_b (partition_of pair_cfg task_x) (pair_idle, []) (s, l) →
      ((s.task node_b (partition_of pair_cfg task_x) task_x).any fun entry => entry.status ≠ .Pending) = true →
      ∀ n c', ¬ Claims n task_x (s, l) c' := by
    intro s l hsteps hbegun
    obtain ⟨entry, hentry, hst⟩ := (Option.any_eq_true _ _).1 hbegun
    exact (lease_exclusive (c := (s, l)) led_pair hsteps).2 node_b entry hentry (of_decide_eq_true hst)
  refine ⟨⟨node_b, ?_⟩, (lease_exclusive (c := (contender.2, pair_contest)) led_pair steps_contender).1, ?_⟩
  · have hnext : claims_next node_b (partition_of pair_cfg task_x) task_x contender.1 = true := by decide +kernel
    have hpending : (contender.2.claim node_b (partition_of pair_cfg task_x) task_x).1 = true := by decide +kernel
    exact @claims_of_next _ _ _ _ (.worker node_b) _ [] hnext hpending
  · rintro ⟨n, c', hclaims⟩
    exact hnone _ _ hsteps (by decide +kernel) n c' hclaims

def QueueInt_quartet : (e : QueueAct) → QueueCluster → QueueI.Ans e × QueueCluster :=
  QueueInt (answered quartet_cfg) fun _ => none

theorem quartet_sem (e : QueueAct) (s : QueueCluster) :
    QueueSem quartet_cfg .reliable e s (QueueInt_quartet e s).1 (QueueInt_quartet e s).2 :=
  QueueInt_sem (allows_answered .reliable) e s

/-- Node d has not joined yet. -/
def trio_idle : QueueCluster := .empty (demo_view trio) fun _ => 0

def trio_submitted : QueueCluster :=
  (exec QueueInt_quartet (unattended (handle_submit_task quartet_cfg node_a index_task)) trio_idle).2

/-- The primary has claimed the task. -/
def trio_claimed : QueueCluster := (exec QueueInt_quartet (unattended (worker_loop quartet_cfg node_a)) trio_submitted).2

/-- Now the backup is the primary. -/
def joined : QueueCluster := { trio_claimed with view := demo_view quartet }

def second_worker : QueueM (Option (Result TaskId)) × QueueCluster :=
  advance QueueInt_quartet 320 (unattended (worker_loop quartet_cfg node_b)) joined

/-- A join makes another node the primary, and it claims the task that a live
node runs under a lease. -/
theorem not_always_exclusive :
    ¬ ∀ (cfg : MapConfig) (net : Network) (start ring : NodeRing NodeId) (view : NodeId → MembershipService)
      (clock : NodeId → Nat) (c c' : QueueCluster × QueuePool) (n m : NodeId) (id : TaskId),
      Agreed cfg start view →
      StepsWithin cfg net (fun view => ∃ ring, Agreed cfg ring view) (.empty view clock, []) c →
      Agreed cfg ring c.1.view → m ∈ ring.ids → n ≠ m → Leased cfg m id (c.1.clock m) c.1 → ¬ Claims n id c c' := by
  intro h
  have htrio : Agreed quartet_cfg trio (demo_view trio) := agreed_demo 2 (by decide) (by decide)
  have hquartet : Agreed quartet_cfg quartet (demo_view quartet) := agreed_demo 2 (by decide) (by decide)
  let φ := fun view => ∃ ring, Agreed quartet_cfg ring view
  have hclaimed : StepsWithin quartet_cfg .reliable φ (trio_idle, []) (trio_claimed, []) :=
    steps_alone quartet_sem (steps_alone quartet_sem .refl (.submission node_a index_task)) (.worker node_a)
  have hjoined : StepsWithin quartet_cfg .reliable φ (trio_idle, []) (joined, []) :=
    hclaimed.tail (.env joined (.membership (demo_view quartet) ⟨quartet, hquartet⟩))
  have hlisted : ∀ ψ, StepsWithin quartet_cfg .reliable ψ (joined, [])
      (second_worker.2, [(.worker node_b, second_worker.1)]) := fun ψ =>
    .head (.spawn (.worker node_b) _ (.worker node_b))
      (Pool.steps_advance (S := fun _ => QueueSem quartet_cfg .reliable) quartet_sem 320 _ joined [] [])
  have hsteps := hjoined.trans (hlisted _)
  have hleased : Leased quartet_cfg node_a task_x (second_worker.2.clock node_a) second_worker.2 := by
    have hentry : ((second_worker.2.task node_a (partition_of quartet_cfg task_x) task_x).any fun entry =>
        entry.status = .Running ∧ entry.assigned_to = some node_a ∧
          entry.lease_expires.any fun lease => second_worker.2.clock node_a < lease) = true := by decide +kernel
    obtain ⟨entry, hentry, hrun⟩ := (Option.any_eq_true _ _).1 hentry
    obtain ⟨hst, hassigned, hlease⟩ := of_decide_eq_true hrun
    obtain ⟨lease, hlease, hlater⟩ := (Option.any_eq_true _ _).1 hlease
    exact ⟨entry, lease, hentry, hst, hassigned, hlease, of_decide_eq_true hlater⟩
  have hkeep : ∀ s l, StepsWithin quartet_cfg .reliable (fun _ => False) (joined, []) (s, l) →
      Agreed quartet_cfg quartet s.view := by
    intro s l hs
    rw [show s.view = joined.view from (stable_grown hs).view]
    exact hquartet
  have hagreed : Agreed quartet_cfg quartet second_worker.2.view := hkeep _ _ (hlisted _)
  have hnext : claims_next node_b (partition_of quartet_cfg task_x) task_x second_worker.1 = true := by decide +kernel
  have hpending : (second_worker.2.claim node_b (partition_of quartet_cfg task_x) task_x).1 = true := by decide +kernel
  obtain ⟨c', hclaims⟩ := @claims_of_next _ _ _ _ (.worker node_b) _ [] hnext hpending
  have hnever : ∀ s l, StepsWithin quartet_cfg .reliable φ (trio_idle, []) (s, l) → Agreed quartet_cfg quartet s.view →
      Leased quartet_cfg node_a task_x (s.clock node_a) s → ∀ c', ¬ Claims node_b task_x (s, l) c' :=
    fun s l hsteps hview hleased c' => h quartet_cfg .reliable trio quartet _ _ (s, l) c' node_b node_a task_x htrio hsteps
      hview (by decide) (by decide) hleased
  exact hnever _ _ hsteps hagreed hleased c' hclaims

end Example

end Executor
