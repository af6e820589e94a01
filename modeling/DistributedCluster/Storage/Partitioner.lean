import DistributedCluster.Lib.Ring
import DistributedCluster.Lib.SipHash
import DistributedCluster.Membership.Service
/-!
# Partition manager

`storage/partitioner.rs`. Owners are computed from the members the local view
holds alive, so they are a function of the membership service.
-/

/-- `num_partitions` and `replication_factor` are positive by construction. -/
structure PartitionManager where
  num_partitions : Nat
  replication_factor : Nat
  num_partitions_pos : 0 < num_partitions
  replication_factor_pos : 0 < replication_factor

/-- `str::hash` into a fresh `DefaultHasher`: SipHash-1-3 with zero keys over
the UTF-8 bytes and `0xff`. -/
def default_hash (key : String) : UInt64 :=
  SipHash.sip13 0 0 (key.toList.flatMap String.utf8EncodeChar ++ [0xff])

namespace PartitionManager

def new_with_replication (replication_factor : Nat) : PartitionManager :=
  ⟨256, max replication_factor 1, by decide, Nat.lt_of_lt_of_le Nat.one_pos (Nat.le_max_right ..)⟩

def new : PartitionManager := new_with_replication 2

/-- `hasher.finish() as u32 % num_partitions` -/
def get_partition (pm : PartitionManager) (key : String) : Nat :=
  (default_hash key).toNat % 2 ^ 32 % pm.num_partitions

theorem get_partition_lt (pm : PartitionManager) (key : String) : pm.get_partition key < pm.num_partitions :=
  Nat.mod_lt _ pm.num_partitions_pos

/-- `node_ids.sort_by(|a, b| a.0.cmp(&b.0))` -/
def sorted_ids (alive_nodes : List Node) : List NodeId := (alive_nodes.map Node.id).insertionSort (· ≤ ·)

def owners_among (pm : PartitionManager) (node_ids : List NodeId) (partition : Nat) : List NodeId :=
  if h : 0 < node_ids.length then
    let primary_idx := partition % node_ids.length
    let replica_count := min pm.replication_factor node_ids.length
    (List.range replica_count).map fun offset =>
      node_ids.get ⟨(primary_idx + offset) % node_ids.length, Nat.mod_lt _ h⟩
  else []

def get_owners (pm : PartitionManager) (membership : MembershipService) (partition : Nat) : List NodeId :=
  pm.owners_among (sorted_ids membership.get_alive_members) partition

def my_primary_partitions (pm : PartitionManager) (membership : MembershipService) : List Nat :=
  (List.range pm.num_partitions).filter fun partition =>
    (pm.get_owners membership partition).head? == some membership.local_id

def my_backup_partitions (pm : PartitionManager) (membership : MembershipService) : List Nat :=
  (List.range pm.num_partitions).filter fun partition =>
    (pm.get_owners membership partition).tail.contains membership.local_id

/-! ## Owners depend on the set of alive ids only -/

/-- The nodes a view holds alive, as the ring the owners are counted on. -/
def Sees (membership : MembershipService) (ring : NodeRing NodeId) : Prop :=
  sorted_ids membership.get_alive_members = ring.ids

theorem get_owners_eq (pm : PartitionManager) {membership : MembershipService} {ring : NodeRing NodeId}
    (h : Sees membership ring) (partition : Nat) :
    pm.get_owners membership partition = ring.owners pm.replication_factor partition := by
  rw [get_owners, show sorted_ids membership.get_alive_members = ring.ids from h, owners_among]
  split
  · exact (NodeRing.owners_eq_map ring pm.replication_factor partition ‹_›).symm
  · symm
    rw [NodeRing.owners_eq_nil]
    exact .inr (List.eq_nil_of_length_eq_zero (by omega))

/-- A view that holds each alive node once sees their ring, whatever the order
of its map. -/
theorem sees_of_alive {membership : MembershipService} {ring : NodeRing NodeId}
    (hn : (membership.get_alive_members.map Node.id).Nodup)
    (h : ∀ n, n ∈ membership.get_alive_members.map Node.id ↔ n ∈ ring.ids) : Sees membership ring := by
  have hp : (membership.get_alive_members.map Node.id).Perm ring.ids :=
    (List.perm_ext_iff_of_nodup hn ring.ids_nodup).2 h
  exact ((List.perm_insertionSort _ _).trans hp).eq_of_pairwise (fun a b _ _ => le_antisymm)
    (List.pairwise_insertionSort _ _) (ring.sorted.imp le_of_lt)

end PartitionManager
