import DistributedCluster.Executor.Status
/-!
# Where a task is looked up

A node that has no entry of a task asks the owners one after the other, unless
it is the first of them itself: then it asks nobody, although a backup may have
an entry.
-/

namespace Executor

open Async

variable {cfg : MapConfig} {net : Network} {s s' s₀ : QueueCluster} {n m : NodeId} {p : Nat} {id : TaskId}

instance : IsPreorder QueueCluster (SameTask id) where
  refl := SameTask.refl
  trans _ _ _ := SameTask.trans

/-- Which fates an attempt of a request may have, told by its sender, address, content and number. -/
abbrev FatePattern := NodeId → SocketAddr → TaskRequest → Nat → Fate NodeId → Prop

/-- Requests end as `pattern` says. -/
def Fated (pattern : FatePattern) : (e : QueueAct) → QueueCluster → QueueI.Ans e → Prop
  | .send n addr req attempt, _, fate => pattern n addr req attempt fate
  | _, _, _ => True

/-- The queue's actions where requests end as `pattern` says. -/
abbrev FatedSem (cfg : MapConfig) (net : Network) (pattern : FatePattern) : Sem QueueI QueueCluster :=
  (QueueSem cfg net).restrict (Fated pattern)

/-- Asked by `n`, node `m` answers with the entry that it has. -/
def Answers (cfg : MapConfig) (net : Network) (pattern : FatePattern) (s : QueueCluster) (n m : NodeId) (id : TaskId) :
    Prop :=
  ∀ entry, s.task m (partition_of cfg id) id = some entry → ∀ s₁ r s₂, SameTask id s s₁ →
    Runs (FatedSem cfg net pattern) (SameTask id) (fetch_remote cfg n m id.text) s₁ r s₂ → r = .ok (some entry)

/-! ## A fetch changes nothing -/

theorem keeps_quiet_read {e : QueueAct} (h : ∀ s x s', QueueSem cfg net e s x s' → s' = s) :
    Keeps (QueueSem cfg net) (SameTask id s₀) (act e) fun _ => True :=
  keeps_read fun s x s' _ hact => ⟨trivial, h s x s' hact⟩

theorem keeps_fetch_remote (key : String) :
    Keeps (QueueSem cfg net) (SameTask id s₀) (fetch_remote cfg n m key) fun _ => True := by
  have hmember : Keeps (QueueSem cfg net) (SameTask id s₀) (get_member n m) fun _ => True :=
    (keeps_quiet_read (e := .membership n) fun _ _ _ hact => hact.2).bind fun _ _ => Keeps.pure trivial
  refine hmember.bind fun o _ => ?_
  cases o with
  | none => exact Keeps.pure trivial
  | some node =>
    have hsend : ∀ i, Keeps (QueueSem cfg net) (SameTask id s₀) (send n node.http_addr (.get_task key) i) fun f =>
        ∀ m', f = .unheard m' ∨ f = .replied m' → True := fun i => by
      refine Keeps.perform fun s f s' hs hact => ⟨fun _ _ => trivial, ?_⟩
      obtain ⟨-, rfl⟩ := hact
      exact hs.trans ⟨rfl, fun _ _ => rfl⟩
    have hserve : ∀ m', True → Keeps (QueueSem cfg net) (SameTask id s₀) (route_get_task_internal cfg m' key) fun _ => True := by
      intro m' _
      unfold route_get_task_internal
      cases cfg.route key with
      | error status => exact Keeps.pure trivial
      | ok text =>
        refine (keeps_quiet_read (e := .lookup m' _ ⟨text⟩) fun _ _ _ hact => hact.2).bind fun o _ => ?_
        cases o with
        | none => exact Keeps.pure trivial
        | some entry => exact Keeps.pure trivial
    refine (Keeps.retry_reach (fun _ => True) hsend hserve 3).bind fun r _ => ?_
    cases r with
    | error e => exact Keeps.pure trivial
    | ok response =>
      dsimp only
      split
      · exact Keeps.pure trivial
      · exact Keeps.pure trivial

/-- Keeping what a fetch keeps, with others around that keep it as well. -/
theorem runs_fated {α : Type} {pattern : FatePattern} {program : QueueM α} {Q : α → Prop} {a : α}
    (h : Keeps (QueueSem cfg net) (SameTask id s₀) program Q) (hs : SameTask id s₀ s)
    (hrun : Runs (FatedSem cfg net pattern) (SameTask id) program s a s') : Q a ∧ SameTask id s₀ s' := by
  have hrun' : Runs (QueueSem cfg net) (SameTask id) program s a s' := hrun.of_sem fun _ _ _ _ hact => hact.1
  exact Triple.runs h hs (hrun'.mono fun _ _ hsame hs => hs.trans hsame)

/-! ## The search -/

/-- Asked in turn, the owners yield an entry if one of them has it and answers. -/
theorem isSome_of_fetch_first {pattern : FatePattern} {owners : List NodeId} {r : Option TaskEntry} (hs : SameTask id s₀ s)
    (hrun : Runs (FatedSem cfg net pattern) (SameTask id) (fetch_first cfg n id.text owners) s r s')
    (hm : m ∈ owners) (hanswers : Answers cfg net pattern s₀ n m id)
    (hholds : (s₀.task m (partition_of cfg id) id).isSome) : r.isSome := by
  induction owners generalizing s with
  | nil => cases hm
  | cons owner owners ih =>
    obtain ⟨x, s₁, hfetch, hrest⟩ := runs_bind.1 hrun
    have hs₁ : SameTask id s₀ s₁ := (runs_fated (keeps_fetch_remote id.text) hs hfetch).2
    rcases List.mem_cons.1 hm with rfl | hm
    · obtain ⟨entry, hentry⟩ := Option.isSome_iff_exists.1 hholds
      obtain rfl := hanswers entry hentry s x s₁ hs hfetch
      obtain ⟨rfl, -⟩ := runs_pure.1 hrest
      rfl
    · rcases x with e | (_ | task)
      · exact ih hs₁ hrest hm
      · exact ih hs₁ hrest hm
      · obtain ⟨rfl, -⟩ := runs_pure.1 hrest
        rfl

/-- What a lookup should find: an entry at the node itself or at an owner that answers. -/
def Held (cfg : MapConfig) (net : Network) (pattern : FatePattern) (s : QueueCluster) (n : NodeId) (id : TaskId) : Prop :=
  (s.task n (partition_of cfg id) id).isSome ∨
    ∃ m ∈ cfg.partitioner.get_owners (s.view n) (partition_of cfg id),
      Answers cfg net pattern s n m id ∧ (s.task m (partition_of cfg id) id).isSome

/-- What a lookup at `n` does, by what `n` has and who comes first. -/
theorem runs_get_task {pattern : FatePattern} {r : Option TaskEntry}
    (hrun : Runs (FatedSem cfg net pattern) (SameTask id) (get_task cfg n id) s r s') :
    r = s.task n (partition_of cfg id) id ∧ r.isSome ∨
      s.task n (partition_of cfg id) id = none ∧
        ((cfg.partitioner.get_owners (s.view n) (partition_of cfg id)).head? = some n ∨
          ∃ s₁, SameTask id s s₁ ∧ Runs (FatedSem cfg net pattern) (SameTask id)
            (fetch_first cfg n id.text (cfg.partitioner.get_owners (s.view n) (partition_of cfg id))) s₁ r s') := by
  obtain ⟨x, s₁, hlookup, hrest⟩ := runs_bind.1 hrun
  obtain ⟨rfl, hs₁⟩ := runs_fated (get_task_local_keeps n) (.refl s) hlookup
  cases hlocal : s.task n (partition_of cfg id) id with
  | some entry =>
    rw [hlocal] at hrest
    obtain ⟨rfl, -⟩ := runs_pure.1 hrest
    exact .inl ⟨rfl, rfl⟩
  | none =>
    rw [hlocal] at hrest
    have howns : Keeps (QueueSem cfg net) (SameTask id s) (get_owners cfg n (partition_of cfg id)) fun owners =>
        owners = cfg.partitioner.get_owners (s.view n) (partition_of cfg id) := by
      refine Keeps.bind (Q := fun view => view = s.view n) (keeps_read fun t view t' ht hact => ?_) fun view hview => ?_
      · obtain ⟨rfl, rfl⟩ := hact
        exact ⟨by rw [ht.view], rfl⟩
      · exact Keeps.pure (by rw [hview])
    obtain ⟨owners, s₂, howners, hrest⟩ := runs_bind.1 hrest
    obtain ⟨rfl, hs₂⟩ := runs_fated howns hs₁ howners
    refine .inr ⟨rfl, ?_⟩
    cases howners : cfg.partitioner.get_owners (s.view n) (partition_of cfg id) with
    | nil =>
      rw [howners] at hrest
      exact .inr ⟨s₂, hs₂, hrest⟩
    | cons primary backups =>
      rw [howners] at hrest
      dsimp only at hrest
      split at hrest
      · rename_i hself
        exact .inl (congrArg some hself)
      · exact .inr ⟨s₂, hs₂, hrest⟩

/-- The first of the owners asks nobody. -/
theorem get_task_at_primary {pattern : FatePattern}
    (hhead : (cfg.partitioner.get_owners (s.view n) (partition_of cfg id)).head? = some n)
    (hnone : s.task n (partition_of cfg id) id = none) :
    Runs (FatedSem cfg net pattern) (SameTask id) (get_task cfg n id) s none s := by
  have hlookup : Runs (FatedSem cfg net pattern) (SameTask id) (get_task_local cfg n id) s none s :=
    .call (.refl s) ⟨⟨hnone.symm, rfl⟩, trivial⟩ (.done (.refl s))
  have howners : Runs (FatedSem cfg net pattern) (SameTask id) (get_owners cfg n (partition_of cfg id)) s
      (cfg.partitioner.get_owners (s.view n) (partition_of cfg id)) s :=
    .call (.refl s) ⟨⟨rfl, rfl⟩, trivial⟩ (.done (.refl s))
  refine runs_bind.2 ⟨none, s, hlookup, runs_bind.2 ⟨_, s, howners, ?_⟩⟩
  cases howns : cfg.partitioner.get_owners (s.view n) (partition_of cfg id) with
  | nil => exact runs_pure.2 ⟨rfl, .refl s⟩
  | cons primary backups =>
    rw [howns] at hhead
    dsimp only
    rw [if_pos (Option.some.inj hhead)]
    exact runs_pure.2 ⟨rfl, .refl s⟩

/-- A lookup finds what is held if, and only if, the node is not the first of the
owners, or has an entry itself, or none of the owners that answer has one. -/
theorem get_task_complete_iff (cfg : MapConfig) (net : Network) (pattern : FatePattern) (s : QueueCluster) (n : NodeId)
    (id : TaskId) :
    (∀ r s', Runs (FatedSem cfg net pattern) (SameTask id) (get_task cfg n id) s r s' →
        Held cfg net pattern s n id → r.isSome) ↔
      ((cfg.partitioner.get_owners (s.view n) (partition_of cfg id)).head? = some n →
        s.task n (partition_of cfg id) id = none →
          ∀ m ∈ cfg.partitioner.get_owners (s.view n) (partition_of cfg id), Answers cfg net pattern s n m id →
            s.task m (partition_of cfg id) id = none) := by
  constructor
  · intro hcomplete hhead hnone m hm hanswers
    by_contra hholds
    have hheld : Held cfg net pattern s n id := .inr ⟨m, hm, hanswers, Option.isSome_iff_ne_none.2 hholds⟩
    have hfound := hcomplete none s (get_task_at_primary hhead hnone) hheld
    cases hfound
  · intro hcond r s' hrun hheld
    rcases runs_get_task hrun with ⟨-, hsome⟩ | ⟨hnone, hhead | ⟨s₁, hs₁, hfirst⟩⟩
    · exact hsome
    · exfalso
      rcases hheld with hlocal | ⟨m, hm, hanswers, hholds⟩
      · rw [hnone] at hlocal
        cases hlocal
      · rw [hcond hhead hnone m hm hanswers] at hholds
        cases hholds
    · rcases hheld with hlocal | ⟨m, hm, hanswers, hholds⟩
      · rw [hnone] at hlocal
        cases hlocal
      · exact isSome_of_fetch_first hs₁ hfirst hm hanswers hholds

section Example

/-- Only the backup, node a, has the entry. -/
def kept_at_backup : QueueCluster :=
  pair_idle.store_local node_a (partition_of pair_cfg task_x) task_x
    { task := index_task, status := .Pending, assigned_to := none, created_at := 0, lease_expires := none }

/-- Any fate that the network allows. -/
def any_fate : FatePattern := fun _ _ _ _ _ => True

theorem not_found_at_primary :
    ¬ ∀ (cfg : MapConfig) (net : Network) (pattern : FatePattern) (s s' : QueueCluster) (n : NodeId) (id : TaskId)
      (r : Option TaskEntry), Runs (FatedSem cfg net pattern) (SameTask id) (get_task cfg n id) s r s' →
        Held cfg net pattern s n id → r.isSome := by
  intro h
  have hview : Agreed pair_cfg pair kept_at_backup.view := agreed_pair
  have howners : pair_cfg.partitioner.get_owners (kept_at_backup.view node_b) (partition_of pair_cfg task_x) =
      [node_b, node_a] := (hview.get_owners (show node_b ∈ pair.ids by decide) _).trans owners_task_x
  have hrun : Runs (FatedSem pair_cfg .reliable any_fate) (SameTask task_x) (get_task pair_cfg node_b task_x)
      kept_at_backup none kept_at_backup := get_task_at_primary (by rw [howners]; rfl) (by decide +kernel)
  have hanswers : Answers pair_cfg .reliable any_fate kept_at_backup node_b node_a task_x := by
    intro entry hentry s₁ r s₂ hs₁ hfetch
    exact (runs_fated (fetch_remote_keeps hview rfl (by decide) (by decide) hentry) hs₁ hfetch).1
  have hfound := h pair_cfg .reliable any_fate _ _ node_b task_x none hrun
    (.inr ⟨node_a, by rw [howners]; decide, hanswers, by decide +kernel⟩)
  cases hfound

end Example

end Executor
