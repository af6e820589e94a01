import DistributedCluster.Storage.Agreement
/-!
# Who owns a partition

Every node computes the owners from its own view. Views that hold the same nodes
alive agree on them, and share the partitions evenly. When a node fails, the next
node takes over only for some of the partitions.
-/

namespace PartitionManager

/-- A view holds exactly the nodes of `ring` alive, each once and in any order. -/
def HoldsAlive (membership : MembershipService) (ring : NodeRing NodeId) : Prop :=
  (membership.get_alive_members.map Node.id).Perm ring.ids

theorem HoldsAlive.sees {membership : MembershipService} {ring : NodeRing NodeId} (h : HoldsAlive membership ring) :
    Sees membership ring :=
  sees_of_alive (h.nodup_iff.2 ring.ids_nodup) fun _ => h.mem_iff

theorem holdsAlive_settled (ring : NodeRing NodeId) (addr : NodeId → SocketAddr) (n : NodeId) :
    HoldsAlive (settled ring addr n) ring := by
  have h : ((settled ring addr n).get_alive_members.map Node.id).insertionSort (· ≤ ·) = ring.ids :=
    sees_settled ring addr n
  rw [HoldsAlive, ← h]
  exact (List.perm_insertionSort _ _).symm

section
variable (pm : PartitionManager) {ring : NodeRing NodeId} {membership : MembershipService} {p : Nat}

theorem mem_my_primary_partitions (h : HoldsAlive membership ring) :
    p ∈ pm.my_primary_partitions membership ↔
      p < pm.num_partitions ∧ (ring.owners pm.replication_factor p).head? = some membership.local_id := by
  simp [my_primary_partitions, pm.get_owners_eq h.sees]

theorem mem_my_backup_partitions (h : HoldsAlive membership ring) :
    p ∈ pm.my_backup_partitions membership ↔
      p < pm.num_partitions ∧ membership.local_id ∈ (ring.owners pm.replication_factor p).tail := by
  simp [my_backup_partitions, pm.get_owners_eq h.sees]

theorem length_my_primary_partitions (h : HoldsAlive membership ring) (hmem : membership.local_id ∈ ring.ids) :
    (pm.my_primary_partitions membership).length = pm.num_partitions / ring.ids.length +
      if ring.position membership.local_id < pm.num_partitions % ring.ids.length then 1 else 0 := by
  rw [← NodeRing.countP_head?_owners hmem pm.replication_factor_pos pm.num_partitions, List.countP_eq_length_filter,
    my_primary_partitions]
  congr 1
  refine List.filter_congr fun q _ => ?_
  rw [pm.get_owners_eq h.sees]
  exact Bool.eq_iff_iff.2 (by simp)

end

/-- The owners are one list for all views that hold the same nodes alive. When
every node does, each partition has one primary and `min r n - 1` backups, and
the primaries are shared evenly. -/
theorem ownership_well_formed (pm : PartitionManager) (ring : NodeRing NodeId) (hne : ring.ids ≠ []) :
    (∀ p, ∃ owners : List NodeId, owners.Nodup ∧ owners.length = min pm.replication_factor ring.ids.length ∧
      (∀ m ∈ owners, m ∈ ring.ids) ∧
      ∀ membership, HoldsAlive membership ring → pm.get_owners membership p = owners) ∧
    ∀ view : NodeId → MembershipService, (∀ n ∈ ring.ids, HoldsAlive (view n) ring ∧ (view n).local_id = n) →
      (∀ p < pm.num_partitions,
        ring.ids.countP (fun n => p ∈ pm.my_primary_partitions (view n)) = 1 ∧
        ring.ids.countP (fun n => p ∈ pm.my_backup_partitions (view n)) =
          min pm.replication_factor ring.ids.length - 1 ∧
        ∀ n ∈ ring.ids, ¬ (p ∈ pm.my_primary_partitions (view n) ∧ p ∈ pm.my_backup_partitions (view n))) ∧
      ∀ m ∈ ring.ids, ∀ n ∈ ring.ids,
        (pm.my_primary_partitions (view m)).length ≤ (pm.my_primary_partitions (view n)).length + 1 := by
  refine ⟨fun p => ⟨_, ring.owners_nodup pm.replication_factor p, ring.owners_length .., fun m => NodeRing.mem_of_mem_owners,
    fun membership h => pm.get_owners_eq h.sees p⟩, fun view hview => ⟨fun p hp => ?_, fun m hm n hn => ?_⟩⟩
  · have hprimary : ∀ n ∈ ring.ids, (p ∈ pm.my_primary_partitions (view n) ↔
        (ring.owners pm.replication_factor p).head? = some n) := by
      intro n hn
      rw [pm.mem_my_primary_partitions (hview n hn).1, (hview n hn).2, and_iff_right hp]
    have hbackup : ∀ n ∈ ring.ids, (p ∈ pm.my_backup_partitions (view n) ↔
        n ∈ (ring.owners pm.replication_factor p).tail) := by
      intro n hn
      rw [pm.mem_my_backup_partitions (hview n hn).1, (hview n hn).2, and_iff_right hp]
    refine ⟨?_, ?_, fun n hn h => ?_⟩
    · rw [← ring.countP_first p pm.replication_factor_pos hne]
      exact List.countP_congr fun n hn => by simp [hprimary n hn]
    · rw [← ring.countP_later pm.replication_factor p]
      exact List.countP_congr fun n hn => by simp [hbackup n hn]
    · have hfirst := (hprimary n hn).1 h.1
      have hlater := (hbackup n hn).1 h.2
      have hnodup := ring.owners_nodup pm.replication_factor p
      cases howners : ring.owners pm.replication_factor p with
      | nil => simp [howners] at hfirst
      | cons first later =>
        rw [howners] at hfirst hlater hnodup
        obtain rfl : first = n := by simpa using hfirst
        exact (List.nodup_cons.1 hnodup).1 hlater
  · rw [pm.length_my_primary_partitions (hview m hm).1 (by rwa [(hview m hm).2]),
      pm.length_my_primary_partitions (hview n hn).1 (by rwa [(hview n hn).2])]
    split <;> split <;> omega

theorem ownership_well_formed_pair :
    pair.ids ≠ [] ∧
    (∃ owners : List NodeId, owners.length = 2 ∧ ∀ membership, HoldsAlive membership pair →
      new.get_owners membership 0 = owners) ∧
    pair.ids.countP (fun n => 255 ∈ new.my_primary_partitions (demo_view pair n)) = 1 := by
  have h := ownership_well_formed new pair (by decide)
  obtain ⟨owners, -, hlength, -, howners⟩ := h.1 0
  exact ⟨by decide, ⟨owners, hlength, howners⟩,
    ((h.2 (demo_view pair) fun n _ => ⟨holdsAlive_settled pair demo_addr n, rfl⟩).1 255 (by decide)).1⟩

/-! ## When a node fails -/

/-- What is documented for a failure: "the next node in the sorted list takes
over", and every other primary stays. -/
def NextTakesOver (pm : PartitionManager) (before after : MembershipService) (failed : NodeId) (p : Nat) : Prop :=
  ((pm.get_owners before p).head? = some failed → (pm.get_owners after p).head? = (pm.get_owners before p)[1]?) ∧
  ((pm.get_owners before p).head? ≠ some failed → (pm.get_owners after p).head? = (pm.get_owners before p).head?)

instance (pm : PartitionManager) (before after : MembershipService) (failed : NodeId) (p : Nat) :
    Decidable (NextTakesOver pm before after failed p) := inferInstanceAs (Decidable (_ ∧ _))

/-- The partition's turn around the smaller ring decides: `p mod n` moves to
`p mod (n - 1)`. -/
theorem next_takes_over_iff (pm : PartitionManager) (ring : NodeRing NodeId) (failed : NodeId) (p : Nat)
    (hf : failed ∈ ring.ids) (hn : 2 ≤ ring.ids.length) (hr : 2 ≤ pm.replication_factor)
    (before after : MembershipService) (hbefore : HoldsAlive before ring) (hafter : HoldsAlive after (ring.without failed)) :
    NextTakesOver pm before after failed p ↔
      ring.ids.length - 1 ∣
        if p % ring.ids.length ≤ ring.position failed then p / ring.ids.length else p / ring.ids.length + 1 := by
  unfold NextTakesOver
  rw [pm.get_owners_eq hbefore.sees, pm.get_owners_eq hafter.sees]
  exact NodeRing.takes_over_iff hf hn hr p

/-- Of three nodes the first fails: the second takes over partition 0. -/
theorem next_takes_over_trio :
    NextTakesOver new (demo_view trio node_b) (demo_view (trio.without node_a) node_b) node_a 0 :=
  (next_takes_over_iff new trio node_a 0 (by decide) (by decide) (by decide) _ _
    (holdsAlive_settled trio demo_addr node_b) (holdsAlive_settled _ demo_addr node_b)).2 (by decide)

/-- Of three nodes the last fails: partition 3 moves from the first to the second. -/
theorem primary_moves_away :
    ¬ ∀ (pm : PartitionManager) (ring : NodeRing NodeId) (failed : NodeId) (p : Nat), failed ∈ ring.ids →
      2 ≤ ring.ids.length → 2 ≤ pm.replication_factor → p < pm.num_partitions →
      ∀ before after : MembershipService, HoldsAlive before ring → HoldsAlive after (ring.without failed) →
        NextTakesOver pm before after failed p := by
  intro h
  exact absurd (h new trio node_c 3 (by decide) (by decide) (by decide) (by decide) _ _
    (holdsAlive_settled trio demo_addr node_a) (holdsAlive_settled _ demo_addr node_a)) (by decide)

end PartitionManager
