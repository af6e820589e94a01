import DistributedCluster.Storage.Cluster
import DistributedCluster.Storage.CompactJson
/-!
# Clusters that agree on their members

What it means that all nodes hold the same members alive and reach each other,
and that there is such a cluster over every ring.
-/

/-- Every node of `ring` sees exactly `ring` alive, knows itself and reaches the
others. -/
structure Agreed (cfg : MapConfig) (ring : NodeRing NodeId) (view : NodeId → MembershipService) : Prop where
  sees : ∀ n ∈ ring.ids, PartitionManager.Sees (view n) ring
  local_id : ∀ n ∈ ring.ids, (view n).local_id = n
  reach : ∀ n ∈ ring.ids, ∀ m ∈ ring.ids, ∃ node, (view n).get_member m = some node ∧
    cfg.host n node.http_addr = some m

namespace MapConfig

/-- The owners of a partition when the nodes of `ring` are alive. -/
def owners (cfg : MapConfig) (ring : NodeRing NodeId) (partition : Nat) : List NodeId :=
  ring.owners cfg.partitioner.replication_factor partition

def partition_of {K : Type} [Key K] (cfg : MapConfig) (key : K) : Nat :=
  cfg.partitioner.get_partition (Key.to_string key)

theorem mem_of_mem_owners {cfg : MapConfig} {ring : NodeRing NodeId} {partition : Nat} {m : NodeId}
    (h : m ∈ cfg.owners ring partition) : m ∈ ring.ids := NodeRing.mem_of_mem_owners h

theorem owners_nodup (cfg : MapConfig) (ring : NodeRing NodeId) (partition : Nat) :
    (cfg.owners ring partition).Nodup := ring.owners_nodup ..

/-- A cluster with a node has a primary for every partition. -/
theorem owners_cons (cfg : MapConfig) {ring : NodeRing NodeId} {n : NodeId} (h : n ∈ ring.ids) (partition : Nat) :
    ∃ primary backups, cfg.owners ring partition = primary :: backups := by
  refine List.exists_cons_of_ne_nil fun hnil => ?_
  rcases NodeRing.owners_eq_nil.1 hnil with h0 | h0
  · exact absurd h0 cfg.partitioner.replication_factor_pos.ne'
  · rw [h0] at h
    cases h

/-- The partitions whose owners are as `mine` says. -/
def partitions_where (cfg : MapConfig) (ring : NodeRing NodeId) (mine : List NodeId → Bool) : List Nat :=
  (List.range cfg.partitioner.num_partitions).filter fun partition => mine (cfg.owners ring partition)

/-- The partitions a node is the first owner of, and those it is a later owner of, are those it owns. -/
theorem mem_target_partitions {cfg : MapConfig} {ring : NodeRing NodeId} {n : NodeId} {p : Nat} :
    p ∈ ((cfg.partitions_where ring fun owners => owners.head? == some n) ++
        cfg.partitions_where ring fun owners => owners.tail.contains n).dedup ↔
      p < cfg.partitioner.num_partitions ∧ n ∈ cfg.owners ring p := by
  rw [List.mem_dedup, List.mem_append, partitions_where, partitions_where, List.mem_filter, List.mem_filter, List.mem_range,
    ← and_or_left, beq_iff_eq, List.contains_iff_mem]
  refine and_congr_right fun _ => ?_
  cases cfg.owners ring p with
  | nil => simp
  | cons first later => simp [eq_comm]

end MapConfig

theorem Agreed.get_owners {cfg : MapConfig} {ring : NodeRing NodeId} {view : NodeId → MembershipService}
    (h : Agreed cfg ring view) {n : NodeId} (hn : n ∈ ring.ids) (partition : Nat) :
    cfg.partitioner.get_owners (view n) partition = cfg.owners ring partition :=
  PartitionManager.get_owners_eq _ (h.sees n hn) _

/-! ## A settled cluster -/

def settled_member (addr : NodeId → SocketAddr) (id : NodeId) : Node :=
  { id, gossip_addr := addr id, http_addr := http_of (addr id), state := .Alive, incarnation := 1, last_seen := some 0 }

/-- Every node holds every node of the ring alive, at its address. -/
def settled (ring : NodeRing NodeId) (addr : NodeId → SocketAddr) (n : NodeId) : MembershipService :=
  { local_node := settled_member addr n
    members := DashMap.ofKeys ring.ids ring.ids_nodup (settled_member addr)
    socket := addr n
    incarnation := 1 }

theorem get_member_settled {ring : NodeRing NodeId} (addr : NodeId → SocketAddr) (n : NodeId) {m : NodeId}
    (hm : m ∈ ring.ids) : (settled ring addr n).get_member m = some (settled_member addr m) :=
  (DashMap.lookup_ofKeys ring.ids ring.ids_nodup _ m).trans (if_pos hm)

theorem sees_settled (ring : NodeRing NodeId) (addr : NodeId → SocketAddr) (n : NodeId) :
    PartitionManager.Sees (settled ring addr n) ring := by
  have halive : (settled ring addr n).get_alive_members = ring.ids.map (settled_member addr) := by
    rw [MembershipService.get_alive_members, settled, DashMap.values_ofKeys, List.filter_eq_self]
    intro node hnode
    obtain ⟨id, -, rfl⟩ := List.mem_map.1 hnode
    rfl
  have hids : (ring.ids.map (settled_member addr)).map Node.id = ring.ids := by
    rw [List.map_map]
    exact List.map_id ring.ids
  rw [PartitionManager.Sees, PartitionManager.sorted_ids, halive, hids]
  exact (ring.sorted.imp le_of_lt).insertionSort_eq

/-- Whoever listens at the addresses of the ring's nodes. -/
def listening (ring : NodeRing NodeId) (addr : NodeId → SocketAddr) (_ : NodeId) (a : SocketAddr) : Option NodeId :=
  ring.ids.find? fun id => http_of (addr id) = a

/-- The nodes of `ring` agree on each other while more nodes may be listening. -/
theorem agreed_settled {cfg : MapConfig} {all ring : NodeRing NodeId} {addr : NodeId → SocketAddr}
    (hhost : cfg.host = listening all addr) (hsub : ∀ a ∈ ring.ids, a ∈ all.ids)
    (hinj : ∀ a ∈ all.ids, ∀ b ∈ all.ids, http_of (addr a) = http_of (addr b) → a = b) :
    Agreed cfg ring (settled ring addr) where
  sees n _ := sees_settled ring addr n
  local_id _ _ := rfl
  reach n _ m hm := by
    refine ⟨_, get_member_settled addr n hm, ?_⟩
    rw [hhost, listening, List.find?_eq_some_iff_append]
    obtain ⟨l₁, l₂, hl⟩ := List.append_of_mem (hsub m hm)
    refine ⟨by simp [settled_member], l₁, l₂, hl, fun a ha => ?_⟩
    have hnd := all.ids_nodup
    rw [hl, List.nodup_append] at hnd
    have hne : a ≠ m := hnd.2.2 a ha m List.mem_cons_self
    have hna : http_of (addr a) ≠ (settled_member addr m).http_addr := fun h =>
      hne (hinj a (by simp [hl, ha]) m (hsub m hm) h)
    simpa using hna

/-! ## A cluster on one machine -/

def node_a : NodeId := ⟨"a"⟩
def node_b : NodeId := ⟨"b"⟩
def node_c : NodeId := ⟨"c"⟩
def node_d : NodeId := ⟨"d"⟩

/-- Gossip ports 5000, 5001, … in the order of the names. -/
def demo_addr (n : NodeId) : SocketAddr :=
  .V4 0x7f000001 (if n = node_a then 5000 else if n = node_b then 5001 else if n = node_c then 5002 else 5003)

def demo_view (ring : NodeRing NodeId) : NodeId → MembershipService := settled ring demo_addr

def demo_cfg (all : NodeRing NodeId) (replication_factor : Nat) : MapConfig where
  partitioner := PartitionManager.new_with_replication replication_factor
  host := listening all demo_addr
  route := .ok

theorem agreed_demo {all ring : NodeRing NodeId} (replication_factor : Nat) (hsub : ∀ a ∈ ring.ids, a ∈ all.ids)
    (hinj : ∀ a ∈ all.ids, ∀ b ∈ all.ids, http_of (demo_addr a) = http_of (demo_addr b) → a = b) :
    Agreed (demo_cfg all replication_factor) ring (demo_view ring) :=
  agreed_settled rfl hsub hinj

def pair : NodeRing NodeId := ⟨[node_a, node_b], by decide⟩

/-- Two nodes, two copies; node a is the primary of `"k"`. -/
def pair_cfg : MapConfig := demo_cfg pair 2

def trio : NodeRing NodeId := ⟨[node_a, node_b, node_c], by decide⟩

/-- Three nodes, two copies. -/
def trio_cfg : MapConfig := demo_cfg trio 2

def quartet : NodeRing NodeId := ⟨[node_a, node_b, node_c, node_d], by decide⟩

/-- Four nodes, two copies. -/
def quartet_cfg : MapConfig := demo_cfg quartet 2
