import DistributedCluster.Storage.Write
/-!
# Acknowledged writes are replicated

A write reaches every owner exactly when its entry node is not itself a backup
of the key. A backup that takes a write in records the operation before it
forwards it, so the copy the primary then sends it counts as processed and is
dropped.
-/

namespace DistributedMap

open Async

variable {K V : Type} [DecidableEq K] [Key K] [Json V]

/-- The write of `value` under `key`, while others may forget operations. -/
def followed (cfg : MapConfig) (ring : NodeRing NodeId) (key : K) (value : V) (op_id : String) (exact : Prop) :
    Tracked K V :=
  ⟨cfg, ring, op_id, cfg.partition_of key, key, value, exact⟩

/-- Nobody else writes `key`, uses `op_id` or changes the membership. -/
abbrev Undisturbed (cfg : MapConfig) (ring : NodeRing NodeId) (key : K) (value : V) (op_id : String) :
    MapCluster K V → MapCluster K V → Prop :=
  (followed cfg ring key value op_id False).Elsewhere

/-- Every owner of `key` holds `value`. -/
def Replicated (cfg : MapConfig) (ring : NodeRing NodeId) (key : K) (value : V) (s : MapCluster K V) : Prop :=
  ∀ o ∈ cfg.owners ring (cfg.partition_of key), s.stored o (cfg.partition_of key) key = some value

variable {cfg : MapConfig} {ring : NodeRing NodeId} {key : K} {value : V} {op_id : String} {n : NodeId}
  {s : MapCluster K V}

omit [Json V] in
theorem inv_start (hs : Agreed cfg ring s.view) (hfresh : ∀ m, ¬ s.recorded m op_id) (exact : Prop) :
    (followed cfg ring key value op_id exact).Inv ∅ (fun m x => x = s.stored m (cfg.partition_of key) key) s :=
  ⟨hs, fun m hm => absurd hm (hfresh m), fun _ _ hm => absurd hm (Set.notMem_empty _), fun _ => rfl⟩

/-- The outcome of a write, for any run beside others. -/
theorem put_with_op_outcome {exact : Prop} (hn : n ∈ ring.ids) (hs : Agreed cfg ring s.view)
    (hfresh : ∀ m, ¬ s.recorded m op_id) {r : Result Unit} {s' : MapCluster K V}
    (hrun : Runs (MapSem cfg .reliable) (followed cfg ring key value op_id exact).Elsewhere
      (put_with_op cfg n key value op_id) s r s') :
    r = .ok () ∧ ∀ m, (followed cfg ring key value op_id exact).outcome n
      (fun m => s.stored m (cfg.partition_of key) key) m (s'.stored m (cfg.partition_of key) key) := by
  have hdoes := Tracked.put_with_op_does (t := followed cfg ring key value op_id exact) hn rfl
    (fun hl => absurd hl Network.reliable_ne_lossy) fun m => s.stored m (cfg.partition_of key) key
  obtain ⟨hr, A, hinv⟩ := (hdoes.runs (inv_start hs hfresh exact) hrun).reliable
  exact ⟨hr, hinv.value⟩

/-- A write nobody interferes with runs to its end, and leaves the copy of its
entry node alone if that is a backup. -/
theorem put_with_op_alone (key : K) (value : V) (hn : n ∈ ring.ids) (hs : Agreed cfg ring s.view)
    (hfresh : ∀ m, ¬ s.recorded m op_id) :
    ∃ s', Runs (MapSem cfg .reliable) Eq (put_with_op cfg n key value op_id) s (.ok ()) s' ∧
      ∀ m, (followed cfg ring key value op_id True).outcome n
        (fun m => s.stored m (cfg.partition_of key) key) m (s'.stored m (cfg.partition_of key) key) := by
  obtain ⟨r, s', hrun⟩ := Runs.total (R := Eq) (MapSem_total cfg .reliable) (put_with_op cfg n key value op_id) s
  have hrun' : Runs (MapSem cfg .reliable) (followed cfg ring key value op_id True).Elsewhere
      (put_with_op cfg n key value op_id) s r s' := hrun.alone
  obtain ⟨rfl, hout⟩ := put_with_op_outcome hn hs hfresh hrun'
  exact ⟨s', hrun, hout⟩

/-- A write that answers `Ok` has reached every owner, however the rest of the
cluster runs beside it, if and only if its entry node is no backup of the key or
held the value before. -/
theorem acknowledged_replicated_iff (hn : n ∈ ring.ids) (hs : Agreed cfg ring s.view)
    (hfresh : ∀ m, ¬ s.recorded m op_id) :
    (∀ s', Runs (MapSem cfg .reliable) (Undisturbed cfg ring key value op_id)
        (put_with_op cfg n key value op_id) s (.ok ()) s' → Replicated cfg ring key value s') ↔
      n ∉ (cfg.owners ring (cfg.partition_of key)).tail ∨ s.stored n (cfg.partition_of key) key = some value := by
  constructor
  · intro h
    by_contra hcon
    obtain ⟨hb, hv⟩ := not_or.1 hcon
    have hb := not_not.1 hb
    obtain ⟨s', hrun, hout⟩ := put_with_op_alone key value hn hs hfresh
    have hrep := h s' hrun.alone n (List.mem_of_mem_tail hb)
    have hold := hout n
    simp only [Tracked.outcome, Tracked.backups, followed, hb, and_self, if_true, not_true_eq_false,
      false_and, or_false] at hold
    exact hv (hold.symm.trans hrep)
  · intro h s' hrun o ho
    have hout := (put_with_op_outcome hn hs hfresh hrun).2 o
    by_cases hob : o = n ∧ o ∈ (cfg.owners ring (cfg.partition_of key)).tail
    · obtain ⟨rfl, hb⟩ := hob
      have hv := h.resolve_left (not_not.2 hb)
      simp only [Tracked.outcome, Tracked.backups, followed, hb, and_self, if_true, hv] at hout
      exact hout.elim id fun hx => hx.2
    · simpa only [Tracked.outcome, Tracked.backups, followed, hob, if_false, ho, if_true] using hout

section Example

open CompactJson

theorem pair_backups : (pair_cfg.owners pair (pair_cfg.partition_of "k")).tail = [node_b] := by decide +kernel

theorem acknowledged_replicated_from_primary :
    (∀ s', Runs (MapSem pair_cfg .reliable) (Undisturbed pair_cfg pair "k" true "op")
        (put_with_op pair_cfg node_a "k" true "op") (MapCluster.empty (demo_view pair)) (.ok ()) s' →
        Replicated pair_cfg pair "k" true s') ↔
      node_a ∉ (pair_cfg.owners pair (pair_cfg.partition_of "k")).tail ∨
        (MapCluster.empty (demo_view pair)).stored node_a (pair_cfg.partition_of "k") "k" = some true :=
  acknowledged_replicated_iff (by decide) (agreed_demo 2 (by decide) (by decide)) (fun m => MapCluster.not_recorded_empty _ m _)

/-- A write that enters at the backup is acknowledged without a copy there. -/
theorem not_always_replicated :
    ¬ ∀ (cfg : MapConfig) (ring : NodeRing NodeId) (n : NodeId) (key : String) (value : Bool) (op_id : String)
      (s : MapCluster String Bool), n ∈ ring.ids → Agreed cfg ring s.view → (∀ m, ¬ s.recorded m op_id) →
      ∀ s', Runs (MapSem cfg .reliable) (Undisturbed cfg ring key value op_id)
        (put_with_op cfg n key value op_id) s (.ok ()) s' → Replicated cfg ring key value s' := by
  intro h
  have hs : Agreed pair_cfg pair (MapCluster.empty (demo_view pair) : MapCluster String Bool).view :=
    agreed_demo 2 (by decide) (by decide)
  have hfresh := fun m => MapCluster.not_recorded_empty (K := String) (V := Bool) (demo_view pair) m "op"
  obtain ⟨s', hrun, hout⟩ := put_with_op_alone "k" true (n := node_b) (by decide) hs hfresh
  have hrep := h pair_cfg pair node_b "k" true "op" (MapCluster.empty (demo_view pair)) (by decide) hs hfresh s'
    hrun.alone node_b
    (List.mem_of_mem_tail (by rw [pair_backups]; decide))
  have hb := hout node_b
  simp [Tracked.outcome, Tracked.backups, followed, pair_backups, MapCluster.stored_empty, hrep] at hb

end Example

end DistributedMap
