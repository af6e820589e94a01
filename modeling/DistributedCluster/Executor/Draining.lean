import DistributedCluster.Executor.Leases
import DistributedCluster.Lib.Marks
/-!
# Every pass takes a task off the backlog

A worker lists the tasks of its node partition by partition, while others claim some
of them, and then tries one after the other. A pass that claims nothing has seen the
end of the backlog. Tasks whose lease has expired are listed too and cannot be
claimed, but they do not keep a pass from the others.
-/

namespace Executor

open Async

/-- The partitions that node `n` leads, in its view. -/
def led (cfg : MapConfig) (view : MembershipService) (n : NodeId) : List Nat :=
  (List.range cfg.partitioner.num_partitions).filter fun partition =>
    (cfg.partitioner.get_owners view partition).head? == some n

/-- The tasks that wait for a worker of node `n`. -/
def backlog (cfg : MapConfig) (s : QueueCluster) (n : NodeId) : Finset TaskId :=
  ((led cfg (s.view n) n).flatMap fun p =>
    ((s.dump_partition n p).filter fun e => e.2.status = .Pending).map Prod.fst).toFinset

def Job.works_at (n : NodeId) : Job → Bool
  | .worker m => decide (m = n)
  | _ => false

/-- The action stores no tasks where node `n` leads. -/
def NotAdded (cfg : MapConfig) (n : NodeId) : (e : QueueAct) → QueueCluster → QueueI.Ans e → Prop
  | .store_local m p _ _, s, _ => ¬ (m = n ∧ p ∈ led cfg (s.view n) n)
  | .apply_partition_entries m p _, s, _ => ¬ (m = n ∧ p ∈ led cfg (s.view n) n)
  | _, _, _ => True

abbrev MarkedPool := Pool.Marked Job QueueI (Option (Result TaskId))

/-- Runs of the queue in which no task is added to the backlog of node `n`, whose view
stays the same. -/
abbrev DrainSteps (cfg : MapConfig) (net : Network) (n : NodeId) (view : MembershipService) :
    QueueCluster × MarkedPool → QueueCluster × MarkedPool → Prop :=
  Pool.Marked.Steps (fun _ => (QueueSem cfg net).restrict (NotAdded cfg n)) (Started cfg) (Around cfg fun views => views n = view)

variable {cfg : MapConfig} {net : Network} {s s' : QueueCluster} {n m : NodeId} {id : TaskId} {view : MembershipService}

/-- No run is left out. -/
theorem drainSteps_of_steps {l l' : QueuePool} (h : Pool.Steps (fun _ => (QueueSem cfg net).restrict (NotAdded cfg n))
    (Started cfg) (Around cfg fun views => views n = view) (s, l) (s', l')) :
    ∃ m, Pool.unmark m.pool = l' ∧ DrainSteps cfg net n view (s, .before l) (s', m) :=
  Pool.Marked.exists_of_steps h

theorem mem_backlog : id ∈ backlog cfg s n ↔
    ∃ p ∈ led cfg (s.view n) n, ∃ entry, s.task n p id = some entry ∧ entry.status = .Pending := by
  unfold backlog
  simp only [List.mem_toFinset, List.mem_flatMap, List.mem_map, List.mem_filter, decide_eq_true_eq, Prod.exists,
    QueueCluster.mem_dump_partition]
  constructor
  · rintro ⟨p, hp, id', entry, ⟨hentry, hpending⟩, rfl⟩
    exact ⟨p, hp, entry, hentry, hpending⟩
  · rintro ⟨p, hp, entry, hentry, hpending⟩
    exact ⟨p, hp, id, entry, ⟨hentry, hpending⟩, rfl⟩

/-! ## What a pass finds out -/

/-- `gone` are tasks that the process knows not to wait any more. -/
structure Hunt where
  gone : TaskId → Prop
  claimed : Bool

instance : Preorder Hunt where
  le g g' := g.gone ≤ g'.gone ∧ (g.claimed = true → g'.claimed = true)
  le_refl g := ⟨le_rfl, fun h => h⟩
  le_trans _ _ _ h h' := ⟨h.1.trans h'.1, h'.2 ∘ h.2⟩

def Hunt.fresh : Hunt := ⟨fun _ => False, false⟩

def Hunt.learn (g : Hunt) (facts : TaskId → Prop) : Hunt := { g with gone := g.gone ⊔ facts }

theorem Hunt.le_learn (g : Hunt) (facts : TaskId → Prop) : g ≤ g.learn facts := ⟨le_sup_left, fun h => h⟩

/-- What a process of any job learns about the backlog of node `n`. -/
def hunting (cfg : MapConfig) (n : NodeId) (view : MembershipService) : Discipline QueueI Hunt where
  may _ _ := True
  gives _
    | .membership m, view' => m = n → view' = view
    | .dump_partition _ p, entries => ∀ e ∈ entries, p = partition_of cfg e.1
    | _, _ => True
  next g
    | .dump_partition m p, entries =>
      if m = n then g.learn fun id => partition_of cfg id = p ∧ ∀ entry, (id, entry) ∈ entries → entry.status ≠ .Pending
      else g
    | .claim m p id, claimed =>
      if m = n then
        if claimed = true then { g with claimed := g.claimed || decide (p ∈ led cfg view n) } else g.learn fun id' => id' = id
      else g
    | _, _ => g

section Programs

variable {g : Hunt}

theorem hunting_next (g : Hunt) (e : QueueAct) (x : QueueI.Ans e) : g ≤ (hunting cfg n view).next g e x := by
  cases e with
  | dump_partition m p =>
    dsimp only [hunting]
    split
    · exact g.le_learn _
    · exact le_rfl
  | claim m p id =>
    dsimp only [hunting]
    split
    · split
      · exact ⟨le_rfl, fun h => by simp [h]⟩
      · exact g.le_learn _
    · exact le_rfl
  | _ => exact le_rfl

/-- Whatever a process does, it forgets nothing. -/
theorem hunts {α : Type} (p : QueueM α) : Grows (hunting cfg n view) p g fun _ _ => True :=
  grows_of_may (fun _ _ => trivial) hunting_next p g

theorem is_available_hunts (entry : TaskEntry) :
    Grows (hunting cfg n view) (is_available n entry) g fun available _ => entry.status = .Pending → available = true := by
  unfold is_available
  split
  · exact Grows.pure fun _ => rfl
  · rename_i hstatus
    exact (hunts _).post fun _ _ _ _ h => absurd (hstatus.symm.trans h) (by decide)
  · rename_i hstatus
    exact Grows.pure fun h => absurd (hstatus.symm.trans h) (by decide)
  · rename_i hstatus
    exact Grows.pure fun h => absurd (hstatus.symm.trans h) (by simp)

theorem available_tasks_hunts (entries : List (TaskId × TaskEntry)) :
    Grows (hunting cfg n view) (available_tasks n entries) g fun tasks _ =>
      tasks ⊆ entries ∧ ∀ e ∈ entries, e.2.status = .Pending → e ∈ tasks := by
  induction entries generalizing g with
  | nil => exact Grows.pure ⟨List.Subset.refl _, fun e he => absurd he List.not_mem_nil⟩
  | cons e entries ih =>
    refine (is_available_hunts e.2).bind fun available _ _ havailable => ?_
    refine ih.bind fun tasks _ _ ⟨hsub, hall⟩ => Grows.pure ?_
    cases available with
    | true =>
      refine ⟨List.cons_subset_cons e hsub, fun e' he' hpending => ?_⟩
      rcases List.mem_cons.1 he' with rfl | he'
      · exact List.mem_cons_self
      · exact List.mem_cons_of_mem _ (hall e' he' hpending)
    | false =>
      refine ⟨List.subset_cons_of_subset e hsub, fun e' he' hpending => ?_⟩
      rcases List.mem_cons.1 he' with rfl | he'
      · cases havailable hpending
      · exact hall e' he' hpending

/-- Of the tasks of these partitions, the process knows which are gone, and has listed the others. -/
def Listing (cfg : MapConfig) (partitions : List Nat) (tasks : List (TaskId × TaskEntry)) (g : Hunt) : Prop :=
  (∀ id, partition_of cfg id ∈ partitions → g.gone id ∨ ∃ entry, (id, entry) ∈ tasks) ∧
    ∀ e ∈ tasks, partition_of cfg e.1 ∈ partitions

theorem pending_tasks_hunts (partitions : List Nat) :
    Grows (hunting cfg n view) (pending_tasks n partitions) g fun tasks g' => Listing cfg partitions tasks g' := by
  induction partitions generalizing g with
  | nil => exact Grows.pure ⟨fun id hid => absurd hid List.not_mem_nil, fun e he => absurd he List.not_mem_nil⟩
  | cons p partitions ih =>
    have hdump : Grows (hunting cfg n view) (dump_partition n p) g fun entries g' =>
        (∀ e ∈ entries, p = partition_of cfg e.1) ∧
          ∀ id, partition_of cfg id = p → g'.gone id ∨ ∃ entry, (id, entry) ∈ entries ∧ entry.status = .Pending := by
      refine Grows.perform trivial fun entries hentries => ⟨hunting_next _ (.dump_partition n p) _, hentries, fun id hid => ?_⟩
      by_cases hsome : ∃ entry, (id, entry) ∈ entries ∧ entry.status = .Pending
      · exact .inr hsome
      · left
        simp only [hunting, if_true]
        exact .inr ⟨hid, fun entry hmem hpending => hsome ⟨entry, hmem, hpending⟩⟩
    refine hdump.bind fun entries g₁ _ ⟨hplaced, hentries⟩ => ?_
    refine (available_tasks_hunts entries).bind fun tasks g₂ h₂ ⟨hsub, hall⟩ => ?_
    refine ih.bind fun others g₃ h₃ ⟨hothers, hled⟩ => Grows.pure ⟨fun id hid => ?_, fun e he => ?_⟩
    · rcases List.mem_cons.1 hid with hid | hid
      · rcases hentries id hid with hgone | ⟨entry, hmem, hpending⟩
        · exact .inl ((h₂.trans h₃).1 id hgone)
        · exact .inr ⟨entry, List.mem_append_left _ (hall _ hmem hpending)⟩
      · rcases hothers id hid with hgone | ⟨entry, hmem⟩
        · exact .inl hgone
        · exact .inr ⟨entry, List.mem_append_right _ hmem⟩
    · rcases List.mem_append.1 he with he | he
      · exact List.mem_cons.2 (.inl (hplaced e (hsub he)).symm)
      · exact List.mem_cons_of_mem _ (hled e he)

/-- The process has claimed a task, or none is left. -/
def Hunt.Over (cfg : MapConfig) (view : MembershipService) (n : NodeId) (g : Hunt) : Prop :=
  g.claimed = true ∨ ∀ id, partition_of cfg id ∈ led cfg view n → g.gone id

theorem claim_first_hunts (tasks : List (TaskId × TaskEntry)) (hlisting : Listing cfg (led cfg view n) tasks g) :
    Grows (hunting cfg n view) (claim_first cfg n tasks) g fun _ g' => g'.Over cfg view n := by
  induction tasks generalizing g with
  | nil => exact Grows.pure (.inr fun id hid => (hlisting.1 id hid).resolve_right (by simp))
  | cons e tasks ih =>
    have hled : partition_of cfg e.1 ∈ led cfg view n := hlisting.2 e List.mem_cons_self
    have hclaim : Grows (hunting cfg n view) (try_claim_task cfg n e.1) g fun r g' =>
        r = .ok true ∧ g'.claimed = true ∨ r = .ok false ∧ g'.gone e.1 := by
      refine Grows.bind (Q := fun claimed g' => claimed = true ∧ g'.claimed = true ∨ claimed = false ∧ g'.gone e.1)
        (Grows.perform trivial fun claimed _ => ⟨hunting_next _ (.claim n _ e.1) _, ?_⟩) fun claimed g₁ _ h₁ => ?_
      · cases claimed with
        | true => exact .inl ⟨rfl, by simp [hunting, hled]⟩
        | false =>
          refine .inr ⟨rfl, ?_⟩
          simp only [hunting, if_true, Bool.false_eq_true, if_false]
          exact .inr rfl
      · rcases h₁ with ⟨rfl, h₁⟩ | ⟨rfl, h₁⟩
        · exact Grows.pure (.inl ⟨rfl, h₁⟩)
        · exact Grows.pure (.inr ⟨rfl, h₁⟩)
    refine hclaim.bind fun r g₁ hle h₁ => ?_
    rcases h₁ with ⟨rfl, hclaimed⟩ | ⟨rfl, hgone⟩
    · exact (hunts _).post fun _ _ hle' _ => .inl (hle'.2 hclaimed)
    · refine ih ⟨fun id hid => ?_, fun e' he' => hlisting.2 e' (List.mem_cons_of_mem _ he')⟩
      rcases hlisting.1 id hid with hgone' | ⟨entry, hmem⟩
      · exact .inl (hle.1 id hgone')
      · rcases List.mem_cons.1 hmem with heq | hmem
        · obtain rfl := heq
          exact .inl hgone
        · exact .inr ⟨entry, hmem⟩

end Programs

/-! ## What every process keeps -/

variable {gd : Ghost × Hunt} {gds : Multiset (Ghost × Hunt)} {job : Job} {bound : Nat} {ended : List Job}

/-- Beside what every process keeps: what is known to be gone is gone, and while a task is
left, each claim and each pass that has ended and is removed has taken another one. -/
structure Drains (cfg : MapConfig) (n : NodeId) (view : MembershipService) (bound : Nat) (ended : List Job) (s : QueueCluster)
    (gds : Multiset (Ghost × Hunt)) : Prop where
  sound : Sound cfg s (gds.map Prod.fst)
  view : s.view n = view
  gone : ∀ gd ∈ gds, ∀ id, gd.2.gone id → id ∉ backlog cfg s n
  claimed : (backlog cfg s n).Nonempty →
    (backlog cfg s n).card + gds.countP (fun gd => gd.2.claimed = true) + ended.countP (Job.works_at n) ≤ bound

/-- A task in the backlog lies where its id says. -/
theorem mem_backlog_sound {gs : Multiset Ghost} (h : Sound cfg s gs) : id ∈ backlog cfg s n ↔
    partition_of cfg id ∈ led cfg (s.view n) n ∧
      ∃ entry, s.task n (partition_of cfg id) id = some entry ∧ entry.status = .Pending := by
  rw [mem_backlog]
  constructor
  · rintro ⟨p, hp, entry, hentry, hpending⟩
    obtain rfl := (h.stored n p id entry hentry).1
    exact ⟨hp, entry, hentry, hpending⟩
  · rintro ⟨hp, entry, hentry, hpending⟩
    exact ⟨_, hp, entry, hentry, hpending⟩

/-- An action that adds nothing to the backlog may take from it what it claims. -/
theorem backlog_act {e : QueueAct} {x : QueueI.Ans e} (hstep : (QueueSem cfg net).restrict (NotAdded cfg n) e s x s')
    (hid : id ∈ backlog cfg s' n) : id ∈ backlog cfg s n := by
  obtain ⟨hsem, hadded⟩ := hstep
  obtain ⟨p, hp, entry, hentry, hpending⟩ := mem_backlog.1 hid
  rw [(act_frame hsem).1] at hp
  cases hold : s.task n p id with
  | none =>
    rcases entry_origin hsem hold hentry with rfl | ⟨entries, rfl, -⟩
    · exact absurd ⟨rfl, hp⟩ hadded
    · exact absurd ⟨rfl, hp⟩ hadded
  | some old =>
    obtain ⟨entry', hentry', heffect⟩ := entry_effect hsem hold
    rw [hentry] at hentry'
    cases hentry'
    refine mem_backlog.2 ⟨p, hp, old, hold, ?_⟩
    cases heffect with
    | kept => exact hpending
    | claimed => cases hpending
    | @completed result => cases result <;> cases hpending

theorem backlog_around {l : QueuePool} (hview : s.view n = view) (h : Around cfg (fun views => views n = view) s l s') :
    s'.view n = view ∧ ∀ id ∈ backlog cfg s' n, id ∈ backlog cfg s n := by
  cases h with
  | membership views hviews =>
    have hview' : views n = s.view n := hviews.trans hview.symm
    refine ⟨hviews, fun id hid => ?_⟩
    rw [mem_backlog] at hid ⊢
    rwa [← hview']
  | beside hbeside =>
    cases hbeside with
    | tick clock => exact ⟨hview, fun id hid => hid⟩
    | @renewal m task_id _ =>
      obtain ⟨-, -, hviews, htask⟩ := renewal_round_entry cfg s m task_id
      refine ⟨(congrFun hviews n).trans hview, fun id hid => ?_⟩
      obtain ⟨p, hp, entry, hentry, hpending⟩ := mem_backlog.1 hid
      rw [hviews] at hp
      rcases htask n p id with hsame | ⟨old, lease, -, hrunning, hnew⟩
      · exact mem_backlog.2 ⟨p, hp, entry, hsame ▸ hentry, hpending⟩
      · rw [hnew] at hentry
        cases hentry
        exact absurd (hrunning.symm.trans hpending) (by decide)

/-- A pass that began in the run ends with a claim, or with an empty backlog. -/
def Ended (cfg : MapConfig) (n : NodeId) (view : MembershipService) (job : Job × Bool) (g : Hunt) : Prop :=
  job.2 = true → job.1.works_at n = true → g.Over cfg view n

/-- Where a task is left, a pass that is over has claimed one. -/
theorem Hunt.Over.claimed (hover : gd.2.Over cfg view n) (h : Drains cfg n view bound ended s gds) (hgd : gd ∈ gds)
    (hleft : (backlog cfg s n).Nonempty) : gd.2.claimed = true := by
  refine hover.resolve_right fun hnone => ?_
  obtain ⟨id, hid⟩ := hleft
  have hled := ((mem_backlog_sound h.sound).1 hid).1
  rw [h.view] at hled
  exact h.gone gd hgd id (hnone id hled) hid

theorem drains_retire {job : Job × Bool} (h : Drains cfg n view bound ended s (gd ::ₘ gds)) (hended : Ended cfg n view job gd.2) :
    Drains cfg n view bound (if job.2 then job.1 :: ended else ended) s gds := by
  have hsound := h.sound
  rw [Multiset.map_cons] at hsound
  refine ⟨sound_retire hsound, h.view, fun gd' hgd' => h.gone gd' (Multiset.mem_cons_of_mem hgd'), fun hleft => ?_⟩
  have hclaimed := h.claimed hleft
  rw [Multiset.countP_cons] at hclaimed
  split
  · rename_i hmine
    rw [List.countP_cons]
    by_cases hjob : job.1.works_at n = true
    · rw [if_pos ((hended hmine hjob).claimed h (Multiset.mem_cons_self gd gds) hleft)] at hclaimed
      rw [if_pos hjob]
      omega
    · rw [if_neg hjob]
      omega
  · omega

theorem drains_start (h : Drains cfg n view bound ended s gds) {role : Role} (hrole : (Ghost.start role).held = none)
    {facts : TaskId → Task → Prop} (hfacts : ∀ id task, facts id task → ∃ x ∈ s.sent, x.2.2.Names id task) :
    Drains cfg n view bound ended s (((Ghost.start role).learn facts, Hunt.fresh) ::ₘ gds) := by
  refine ⟨?_, h.view, fun gd hgd => ?_, ?_⟩
  · rw [Multiset.map_cons]
    exact sound_start h.sound hrole hfacts
  · rcases Multiset.mem_cons.1 hgd with rfl | hgd
    · exact fun _ h => h.elim
    · exact h.gone gd hgd
  · rw [Multiset.countP_cons, if_neg (by simp [Hunt.fresh])]
    exact h.claimed

theorem drains_around {l : QueuePool} (h : Drains cfg n view bound ended s gds)
    (haround : Around cfg (fun views => views n = view) s l s') : Drains cfg n view bound ended s' gds := by
  obtain ⟨hview, hbacklog⟩ := backlog_around h.view haround
  refine ⟨sound_around h.sound haround, hview, fun gd hgd id hgone hid => h.gone gd hgd id hgone (hbacklog id hid),
    fun hleft => ?_⟩
  have hcard := Finset.card_le_card hbacklog
  have hclaimed := h.claimed (hleft.mono hbacklog)
  omega

section Act

variable {e : QueueAct} {x : QueueI.Ans e}

/-- A claim that fails finds the task gone, and one that succeeds takes it off the backlog. -/
theorem claim_backlog {gs : Multiset Ghost} (h : Sound cfg s gs) {claimed : Bool}
    (hclaim : (claimed, s') = s.claim n (partition_of cfg id) id) :
    (claimed = false → id ∉ backlog cfg s' n) ∧ (claimed = true → partition_of cfg id ∈ led cfg (s.view n) n →
      id ∈ backlog cfg s n ∧ id ∉ backlog cfg s' n) := by
  rcases QueueCluster.claim_cases s n (partition_of cfg id) id with hsame | ⟨old, hold, hpending, hput⟩
  · rw [hsame] at hclaim
    cases hclaim
    refine ⟨fun _ hid => ?_, fun h => absurd h (by decide)⟩
    obtain ⟨-, entry, hentry, hpending⟩ := (mem_backlog_sound h).1 hid
    rw [claim_pending hentry hpending] at hsame
    cases hsame
  · rw [hput] at hclaim
    cases hclaim
    refine ⟨fun h => absurd h (by decide), fun _ hled => ⟨(mem_backlog_sound h).2 ⟨hled, old, hold, hpending⟩, fun hid => ?_⟩⟩
    obtain ⟨p, -, entry, hentry, hwaits⟩ := mem_backlog.1 hid
    rw [QueueCluster.task_put_task] at hentry
    split at hentry
    · cases hentry
      cases hwaits
    · rename_i hother
      exact hother ⟨rfl, (h.stored n p id entry hentry).1, rfl⟩

/-- What a process learns to be gone is gone. -/
theorem next_gone (h : Drains cfg n view bound ended s (gd ::ₘ gds)) (hmay : may cfg job gd.1 e)
    (hstep : (QueueSem cfg net).restrict (NotAdded cfg n) e s x s') (hgone : ((hunting cfg n view).next gd.2 e x).gone id) :
    id ∉ backlog cfg s' n := by
  have before : gd.2.gone id → id ∉ backlog cfg s' n :=
    fun hgone hid => h.gone gd (Multiset.mem_cons_self gd gds) id hgone (backlog_act hstep hid)
  cases e with
  | dump_partition m p =>
    obtain ⟨⟨rfl, rfl⟩, -⟩ := hstep
    dsimp only [hunting] at hgone
    split at hgone
    · rename_i hm
      subst hm
      rcases hgone with hgone | ⟨rfl, hnone⟩
      · exact before hgone
      · rw [mem_backlog_sound h.sound]
        rintro ⟨-, entry, hentry, hpending⟩
        exact hnone entry (QueueCluster.mem_dump_partition.2 hentry) hpending
    · exact before hgone
  | claim m p task_id =>
    obtain ⟨-, -, rfl, -⟩ := hmay
    dsimp only [hunting] at hgone
    split at hgone
    · rename_i hm
      subst hm
      split at hgone
      · exact before hgone
      · rename_i hlost
        rcases hgone with hgone | rfl
        · exact before hgone
        · exact (claim_backlog h.sound hstep.1).1 (Bool.not_eq_true _ ▸ hlost)
    · exact before hgone
  | _ => exact before hgone

/-- A process that comes to have claimed a task has made the backlog shorter. -/
theorem next_claimed (h : Drains cfg n view bound ended s (gd ::ₘ gds)) (hmay : may cfg job gd.1 e)
    (hstep : (QueueSem cfg net).restrict (NotAdded cfg n) e s x s') :
    ((hunting cfg n view).next gd.2 e x).claimed = gd.2.claimed ∨ (backlog cfg s' n).card < (backlog cfg s n).card := by
  cases e with
  | dump_partition m p =>
    dsimp only [hunting]
    split <;> exact .inl rfl
  | claim m p task_id =>
    obtain ⟨-, -, rfl, -⟩ := hmay
    dsimp only [hunting]
    split
    · rename_i hm
      subst hm
      split
      · rename_i hclaimed
        by_cases hled : partition_of cfg task_id ∈ led cfg view m
        · rw [← h.view] at hled
          obtain ⟨hmem, hnot⟩ := (claim_backlog h.sound hstep.1).2 hclaimed hled
          exact .inr (Finset.card_lt_card ⟨fun id => backlog_act hstep, fun hsub => hnot (hsub hmem)⟩)
        · exact .inl (by simp [hled])
      · exact .inl rfl
    · exact .inl rfl
  | _ => exact .inl rfl

theorem drains_act (h : Drains cfg n view bound ended s (gd ::ₘ gds)) (hmay : may cfg job gd.1 e)
    (hstep : (QueueSem cfg net).restrict (NotAdded cfg n) e s x s') :
    (gives cfg e x ∧ (hunting cfg n view).gives gd.2 e x) ∧
      Drains cfg n view bound ended s' ((next cfg gd.1 e x, (hunting cfg n view).next gd.2 e x) ::ₘ gds) := by
  have hsound : Sound cfg s (gd.1 ::ₘ gds.map Prod.fst) := by
    rw [← Multiset.map_cons]
    exact h.sound
  obtain ⟨hgives, hsound'⟩ := sound_act hsound hmay hstep.1
  have hgiven : (hunting cfg n view).gives gd.2 e x := by
    cases e with
    | membership m =>
      obtain ⟨⟨rfl, -⟩, -⟩ := hstep
      rintro rfl
      exact h.view
    | dump_partition m p => exact fun e he => (hgives e he).1
    | _ => trivial
  have hview : s'.view n = view := (congrFun (act_frame hstep.1).1 n).trans h.view
  have hsub : backlog cfg s' n ⊆ backlog cfg s n := fun _ => backlog_act hstep
  have hcard := Finset.card_le_card hsub
  refine ⟨⟨hgives, hgiven⟩, ?_, hview, fun gd' hgd' id hgone => ?_, fun hleft => ?_⟩
  · rw [Multiset.map_cons]
    exact hsound'
  · rcases Multiset.mem_cons.1 hgd' with rfl | hgd'
    · exact next_gone h hmay hstep hgone
    · exact fun hid => h.gone gd' (Multiset.mem_cons_of_mem hgd') id hgone (backlog_act hstep hid)
  · have hclaimed := h.claimed (hleft.mono hsub)
    rw [Multiset.countP_cons] at hclaimed ⊢
    rcases next_claimed h hmay hstep with hsame | hless
    · rw [hsame]
      omega
    · split <;> omega

end Act

/-! ## Runs -/

theorem worker_loop_hunts (g : Hunt) :
    Grows (hunting cfg n view) (worker_loop cfg n) g fun _ g' => g'.Over cfg view n := by
  have hpartitions : Grows (hunting cfg n view) (get_my_primary_partitions cfg n) g fun partitions _ =>
      partitions = led cfg view n := by
    refine (Grows.filterM (φ := fun p x _ => x = ((cfg.partitioner.get_owners view p).head? == some n))
      (fun _ _ _ _ _ h => h) (fun p g' _ => ?_) _).post fun _ _ _ h => h.eq_filter
    have howners : Grows (hunting cfg n view) (get_owners cfg n p) g' fun owners _ =>
        owners = cfg.partitioner.get_owners view p :=
      Grows.bind (Q := fun view' _ => view' = view) (Grows.perform trivial fun view' h => ⟨le_rfl, h rfl⟩)
        fun view' _ _ h => Grows.pure (by rw [h])
    exact howners.bind fun owners _ _ h => Grows.pure (by rw [h])
  have hlist : Grows (hunting cfg n view) (my_pending_tasks cfg n) g fun tasks g' =>
      Listing cfg (led cfg view n) tasks g' := by
    refine hpartitions.bind fun partitions _ _ h => ?_
    subst h
    exact pending_tasks_hunts _
  exact hlist.bind fun tasks _ _ h => claim_first_hunts tasks h

theorem started_hunts {l : QueuePool} {p : QueueM (Option (Result TaskId))} (h : Started cfg s l job p) :
    Obeys (hunting cfg n view) p Hunt.fresh fun _ g => Ended cfg n view (job, true) g := by
  cases h with
  | worker m =>
    refine Obeys.bind (Q := fun _ g => Ended cfg n view (.worker m, true) g) ?_ fun _ _ h => Obeys.pure h
    by_cases hm : m = n
    · subst hm
      exact (worker_loop_hunts _).mono fun _ _ h _ _ => h.2
    · exact (hunts _).mono fun _ _ _ _ h => absurd (of_decide_eq_true h) hm
  | _ => exact (hunts _).mono fun _ _ _ _ h => absurd h (by simp [Job.works_at])

/-- Pools whose processes hunt, and the passes that have been removed. -/
abbrev Hunted (cfg : MapConfig) (n : NodeId) (view : MembershipService) (bound : Nat)
    (c : QueueCluster × MarkedPool) : Prop :=
  Pool.Tracked (fun job : Job × Bool => (discipline cfg job.1).prod (hunting cfg n view))
    (Drains cfg n view bound c.2.gone) (fun job a gd => Answered job.1 a gd.1 ∧ Ended cfg n view job gd.2) (c.1, c.2.pool)

theorem hunted_before {l : QueuePool} (h : QueueTracked cfg (s, l)) :
    Hunted cfg n (s.view n) (backlog cfg s n).card (s, .before l) := by
  obtain ⟨tracked, rfl, hobeys, hsound⟩ := h
  refine ⟨tracked.map fun x => (((x.1.1, false), x.1.2), (x.2, Hunt.fresh)), ?_, ?_, ?_⟩
  · rw [List.map_map, Pool.Marked.before, List.map_map]
    rfl
  · intro y hy
    obtain ⟨x, hx, rfl⟩ := List.mem_map.1 hy
    exact ((hobeys x hx).prod (hunts x.1.2)).mono fun _ gd h => ⟨h.1, fun hmine => nomatch hmine⟩
  · refine ⟨?_, rfl, fun gd hgd id hgone => ?_, fun _ => ?_⟩
    · rw [Multiset.map_coe, List.map_map, List.map_map]
      exact hsound
    · rw [List.map_map] at hgd
      obtain ⟨x, -, rfl⟩ := List.mem_map.1 (Multiset.mem_coe.1 hgd)
      exact hgone.elim
    · rw [List.map_map, Multiset.coe_countP, List.countP_map, List.countP_eq_zero.2 (by simp [Hunt.fresh])]
      exact le_rfl

theorem hunted_steps {c c' : QueueCluster × MarkedPool} (h : DrainSteps cfg net n view c c')
    (hc : Hunted cfg n view bound c) : Hunted cfg n view bound c' := by
  refine Pool.Marked.tracked_steps ?_ ?_ (fun ended s l job p hl hstart => ?_) ?_ h hc
  · exact fun ended job s gd gds e x s' hinv hmay hstep => drains_act hinv hmay.1 hstep
  · exact fun ended job a s gd gds hinv hends => drains_retire hinv hends.2
  · obtain ⟨gds, hinv⟩ := hl.inv
    obtain ⟨role, facts, hrole, hfacts, -, hobeys⟩ := started_obeys hstart hinv.sound.sent
    exact hl.join (hobeys.prod (started_hunts hstart)) fun gds hinv => drains_start hinv hrole hfacts
  · exact fun ended s l s' gds hinv haround => drains_around hinv haround

/-- While a task is left, there are no more passes that have begun and ended than tasks that have gone. -/
theorem ended_le {m : MarkedPool} (h : Hunted cfg n view bound (s, m))
    (hleft : (backlog cfg s n).Nonempty) : (backlog cfg s n).card + m.ended (Job.works_at n) ≤ bound := by
  obtain ⟨pool, gone⟩ := m
  obtain ⟨tracked, rfl, hobeys, hinv⟩ := h
  have hclaimed := hinv.claimed hleft
  rw [Multiset.coe_countP, List.countP_map] at hclaimed
  have hover : ∀ x ∈ tracked, (x.1.1.2 && x.1.1.1.works_at n && is_over x.1.2) = true → x.2.2.claimed = true := by
    rintro ⟨⟨job, p⟩, g, d⟩ hx hover
    simp only [Bool.and_eq_true] at hover
    obtain ⟨⟨hmine, hjob⟩, hdone⟩ := hover
    cases p with
    | call e k => cases hdone
    | done a =>
      have hgd : (g, d) ∈ (↑(tracked.map Prod.snd) : Multiset (Ghost × Hunt)) := Multiset.mem_coe.2 (List.mem_map_of_mem hx)
      exact ((hobeys _ hx).2 hmine hjob).claimed hinv hgd hleft
  have hcount : tracked.countP (fun x => x.1.1.2 && x.1.1.1.works_at n && is_over x.1.2) ≤
      tracked.countP ((fun gd : Ghost × Hunt => decide (gd.2.claimed = true)) ∘ Prod.snd) :=
    List.countP_mono_left fun x hx h => decide_eq_true (hover x hx h)
  rw [Pool.Marked.ended, List.countP_map]
  dsimp only [Function.comp_def] at hcount hclaimed ⊢
  omega

/-- However the passes and everything else come in between: each pass that begins and ends in
the run takes one task off the backlog of its node, as long as there is one. -/
theorem backlog_drains {views : NodeId → MembershipService} {clock : NodeId → Nat} {l : QueuePool}
    (hreach : Steps cfg net (.empty views clock, []) (s, l)) {m : MarkedPool}
    (h : DrainSteps cfg net n (s.view n) (s, .before l) (s', m)) :
    (backlog cfg s' n).card ≤ (backlog cfg s n).card - m.ended (Job.works_at n) := by
  have hhunted := hunted_steps h (hunted_before (tracked_of_steps hreach (tracked_empty views clock)))
  by_cases hleft : (backlog cfg s' n).Nonempty
  · have hle := ended_le hhunted hleft
    omega
  · rw [Finset.not_nonempty_iff_eq_empty.1 hleft, Finset.card_empty]
    exact Nat.zero_le _

section Example

/-- Two tasks are submitted to one node. -/
def loaded : QueueCluster := (exec QueueInt_panics submission submitted).2

/-- A worker has begun a pass, and waits. -/
theorem steps_loaded :
    Steps solo_cfg .reliable (idle, []) (loaded, [(.worker node_a, unattended (worker_loop solo_cfg node_a))]) :=
  (steps_alone panics_sem steps_submitted (.submission node_a _)).tail (.spawn _ _ (.worker node_a))

/-- Another one makes its pass, and the handler panics. -/
def passed : Option (Result TaskId) × QueueCluster := exec QueueInt_panics (unattended (worker_loop solo_cfg node_a)) loaded

instance (e : QueueAct) (s : QueueCluster) (x : QueueI.Ans e) : Decidable (NotAdded cfg n e s x) := by
  cases e <;> unfold NotAdded <;> infer_instance

/-- The pass that waits, and the one that began in the run and is gone. -/
def after_pass : MarkedPool :=
  ⟨[((.worker node_a, false), unattended (worker_loop solo_cfg node_a))], [.worker node_a]⟩

theorem steps_passed : DrainSteps solo_cfg .reliable node_a (loaded.view node_a)
    (loaded, .before [(.worker node_a, unattended (worker_loop solo_cfg node_a))]) (passed.2, after_pass) := by
  have hmeets : Meets QueueInt_panics (NotAdded solo_cfg node_a) (unattended (worker_loop solo_cfg node_a)) loaded := by
    decide +kernel
  have hrun : DrainSteps solo_cfg .reliable node_a (loaded.view node_a)
      (loaded, ⟨[] ++ ((.worker node_a, true), unattended (worker_loop solo_cfg node_a)) :: after_pass.pool, []⟩)
      (passed.2, ⟨[] ++ ((.worker node_a, true), .done passed.1) :: after_pass.pool, []⟩) :=
    Pool.Marked.steps_of_runs (S := fun _ : Job => (QueueSem solo_cfg .reliable).restrict (NotAdded solo_cfg node_a))
      (Meets.runs panics_sem hmeets) [] _ []
  exact (Relation.ReflTransGen.head (.spawn _ _ (.worker node_a)) hrun).tail (.retire (Job.worker node_a, true) passed.1)

/-- Of two tasks, at most one is left. -/
theorem backlog_drains_passed : (backlog solo_cfg loaded node_a).card = 2 ∧ (backlog solo_cfg passed.2 node_a).card ≤ 1 := by
  have htwo : (backlog solo_cfg loaded node_a).card = 2 := by decide +kernel
  have hended : after_pass.ended (Job.works_at node_a) = 1 := by decide +kernel
  have hle := backlog_drains steps_loaded steps_passed
  rw [htwo, hended] at hle
  exact ⟨htwo, hle⟩

end Example

end Executor
