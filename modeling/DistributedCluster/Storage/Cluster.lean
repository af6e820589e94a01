import Mathlib.Data.Finset.Card
import Mathlib.Data.Finset.Lattice.Fold
import Mathlib.Order.Lattice.Nat
import DistributedCluster.Lib.DashMap
import DistributedCluster.Lib.Http
import DistributedCluster.Storage.Partitioner
import DistributedCluster.Storage.Protocol
/-!
# The state of a distributed map

One `DistributedMap` over all nodes, and the atomic actions its code is made
of: one access of a `DashMap`, one look at the membership view, one attempt of a
request.
-/

/-- What one node keeps of the map. -/
structure MapNode (K V : Type) where
  local_data : DashMap Nat (DashMap K V)
  processed_ops : Finset String

/-- `sent` holds every request ever sent, with its sender and address: any of
them may arrive late. `used` holds every operation id generated or recorded. -/
structure MapCluster (K V : Type) where
  node : NodeId → MapNode K V
  view : NodeId → MembershipService
  sent : List (NodeId × SocketAddr × Request)
  used : Finset String
  ops_used : ∀ n, (node n).processed_ops ⊆ used

/-- What lies outside the code: who answers when a node connects to an address,
and what the server's router makes of a key spliced into a URL path: the text it
hands over, or the status it answers itself. -/
structure MapConfig where
  partitioner : PartitionManager
  host : NodeId → SocketAddr → Option NodeId
  route : String → Except StatusCode String

namespace MapCluster

variable {K V : Type} [DecidableEq K]

/-- The value node `n` keeps for `key` under `partition`. -/
def stored (s : MapCluster K V) (n : NodeId) (partition : Nat) (key : K) : Option V :=
  ((s.node n).local_data.lookup partition).bind fun partition_map => partition_map.lookup key

def recorded (s : MapCluster K V) (n : NodeId) (op_id : String) : Prop := op_id ∈ (s.node n).processed_ops

instance (s : MapCluster K V) (n : NodeId) (op_id : String) : Decidable (s.recorded n op_id) :=
  inferInstanceAs (Decidable (_ ∈ _))

def store_local (s : MapCluster K V) (n : NodeId) (partition : Nat) (key : K) (value : V) : MapCluster K V :=
  let nd := s.node n
  let partition_map := ((nd.local_data.lookup partition).getD ∅).insert key value
  { s with
    node := Function.update s.node n { nd with local_data := nd.local_data.insert partition partition_map }
    ops_used := fun m => by
      by_cases h : m = n
      · subst h
        simpa using s.ops_used m
      · simpa [h] using s.ops_used m }

def clear_ops (s : MapCluster K V) (n : NodeId) : MapCluster K V :=
  { s with
    node := Function.update s.node n { s.node n with processed_ops := ∅ }
    ops_used := fun m => by
      by_cases h : m = n
      · subst h
        simp
      · simpa [h] using s.ops_used m }

def insert_op (s : MapCluster K V) (n : NodeId) (op_id : String) : MapCluster K V :=
  { s with
    node := Function.update s.node n
      { s.node n with processed_ops := insert op_id (s.node n).processed_ops }
    used := insert op_id s.used
    ops_used := fun m => by
      by_cases h : m = n
      · subst h
        simpa using Finset.insert_subset_insert op_id (s.ops_used m)
      · simpa [h] using (s.ops_used m).trans (Finset.subset_insert op_id s.used) }

def use (s : MapCluster K V) (op_id : String) : MapCluster K V :=
  { s with
    used := insert op_id s.used
    ops_used := fun m => (s.ops_used m).trans (Finset.subset_insert op_id s.used) }

def send (s : MapCluster K V) (n : NodeId) (addr : SocketAddr) (req : Request) : MapCluster K V :=
  { s with sent := (n, addr, req) :: s.sent }

def dump_partition (s : MapCluster K V) (n : NodeId) (partition : Nat) : List (K × V) :=
  match (s.node n).local_data.lookup partition with
  | some partition_map => partition_map.iter
  | none => []

def has_partition (s : MapCluster K V) (n : NodeId) (partition : Nat) : Bool :=
  match (s.node n).local_data.lookup partition with
  | some partition_map => !partition_map.isEmpty
  | none => false

/-- Nothing stored, nothing recorded, nothing sent. -/
def empty (view : NodeId → MembershipService) : MapCluster K V :=
  { node := fun _ => ⟨∅, ∅⟩, view, sent := [], used := ∅, ops_used := fun _ => Finset.empty_subset _ }

@[simp] theorem stored_empty (view : NodeId → MembershipService) (n : NodeId) (p : Nat) (k : K) :
    (empty view : MapCluster K V).stored n p k = none := rfl

omit [DecidableEq K] in
theorem not_recorded_empty (view : NodeId → MembershipService) (n : NodeId) (op_id : String) :
    ¬ (empty view : MapCluster K V).recorded n op_id := Finset.notMem_empty op_id

/-! ## What the updates change -/

section Updates

variable (s : MapCluster K V) (n m : NodeId)

theorem stored_store_local (partition p : Nat) (key k : K) (value : V) :
    (s.store_local n partition key value).stored m p k =
      if m = n ∧ p = partition ∧ k = key then some value else s.stored m p k := by
  by_cases hm : m = n
  · subst hm
    by_cases hp : p = partition
    · subst hp
      simp only [stored, store_local, Function.update_self, AList.lookup_insert, Option.bind_some,
        DashMap.lookup_insert_eq, true_and]
      split
      · rfl
      · cases (s.node m).local_data.lookup p with
        | some partition_map => rfl
        | none => simp
    · simp [stored, store_local, AList.lookup_insert_ne hp, hp]
  · simp [stored, store_local, hm]

@[simp] theorem recorded_store_local (partition : Nat) (key : K) (value : V) (op_id : String) :
    (s.store_local n partition key value).recorded m op_id ↔ s.recorded m op_id := by
  by_cases hm : m = n
  · subst hm
    simp [recorded, store_local]
  · simp [recorded, store_local, hm]

@[simp] theorem stored_clear_ops (p : Nat) (k : K) : (s.clear_ops n).stored m p k = s.stored m p k := by
  by_cases hm : m = n
  · subst hm
    simp [stored, clear_ops]
  · simp [stored, clear_ops, hm]

@[simp] theorem stored_insert_op (op_id : String) (p : Nat) (k : K) :
    (s.insert_op n op_id).stored m p k = s.stored m p k := by
  by_cases hm : m = n
  · subst hm
    simp [stored, insert_op]
  · simp [stored, insert_op, hm]

@[simp] theorem stored_use (op_id : String) (p : Nat) (k : K) : (s.use op_id).stored m p k = s.stored m p k := rfl
@[simp] theorem stored_send (addr : SocketAddr) (req : Request) (p : Nat) (k : K) :
    (s.send n addr req).stored m p k = s.stored m p k := rfl
@[simp] theorem view_store_local (partition : Nat) (key : K) (value : V) :
    (s.store_local n partition key value).view = s.view := rfl

omit [DecidableEq K]

theorem recorded_clear_ops (op_id : String) :
    (s.clear_ops n).recorded m op_id ↔ m ≠ n ∧ s.recorded m op_id := by
  by_cases hm : m = n
  · subst hm
    simp [recorded, clear_ops]
  · simp [recorded, clear_ops, hm]

theorem recorded_insert_op (op_id op : String) :
    (s.insert_op n op_id).recorded m op ↔ (m = n ∧ op = op_id) ∨ s.recorded m op := by
  by_cases hm : m = n
  · subst hm
    simp [recorded, insert_op]
  · simp [recorded, insert_op, hm]

@[simp] theorem recorded_use (op_id op : String) : (s.use op_id).recorded m op ↔ s.recorded m op := .rfl
@[simp] theorem recorded_send (addr : SocketAddr) (req : Request) (op : String) :
    (s.send n addr req).recorded m op ↔ s.recorded m op := .rfl

@[simp] theorem view_clear_ops : (s.clear_ops n).view = s.view := rfl
@[simp] theorem view_insert_op (op_id : String) : (s.insert_op n op_id).view = s.view := rfl
@[simp] theorem view_use (op_id : String) : (s.use op_id).view = s.view := rfl
@[simp] theorem view_send (addr : SocketAddr) (req : Request) : (s.send n addr req).view = s.view := rfl

end Updates

theorem mem_dump_partition {s : MapCluster K V} {n : NodeId} {p : Nat} {k : K} {v : V} :
    (k, v) ∈ s.dump_partition n p ↔ s.stored n p k = some v := by
  simp only [dump_partition, stored]
  cases (s.node n).local_data.lookup p with
  | some partition_map => simp [DashMap.mem_iter]
  | none => simp

theorem has_partition_iff {s : MapCluster K V} {n : NodeId} {p : Nat} :
    s.has_partition n p = true ↔ ∃ k v, s.stored n p k = some v := by
  simp only [has_partition, stored]
  cases (s.node n).local_data.lookup p with
  | some partition_map =>
    rw [Bool.not_eq_true', Bool.eq_false_iff, ne_eq, DashMap.isEmpty_iff, ← ne_eq, DashMap.ne_empty_iff]
    rfl
  | none => simp

end MapCluster

/-! ## Atomic actions -/

/-- The first argument is the node that acts. -/
inductive MapAct (K V : Type)
  | contains_op (n : NodeId) (op_id : String)
  | count_ops (n : NodeId)
  | clear_ops (n : NodeId)
  | insert_op (n : NodeId) (op_id : String)
  | store_local (n : NodeId) (partition : Nat) (key : K) (value : V)
  | lookup (n : NodeId) (partition : Nat) (key : K)
  | dump_partition (n : NodeId) (partition : Nat)
  | has_partition (n : NodeId) (partition : Nat)
  | membership (n : NodeId)
  | new_uuid (n : NodeId)
  | iterate (n : NodeId) (set : List Nat)
  | send (n : NodeId) (addr : SocketAddr) (req : Request) (attempt : Nat)

/-- It stores a value. -/
def MapAct.is_store {K V : Type} : MapAct K V → Bool
  | .store_local .. => true
  | _ => false

/-- What each action answers. -/
abbrev MapI (K V : Type) : Interface where
  Act := MapAct K V
  Ans
    | .contains_op .. => Bool
    | .count_ops .. => Nat
    | .clear_ops .. => Unit
    | .insert_op .. => Unit
    | .store_local .. => Unit
    | .lookup .. => Option V
    | .dump_partition .. => List (K × V)
    | .has_partition .. => Bool
    | .membership .. => MembershipService
    | .new_uuid .. => String
    | .iterate .. => List Nat
    | .send .. => Fate NodeId

/-- A hash set is iterated in some order; a new UUID is unlike all others. -/
def MapSem {K V : Type} [DecidableEq K] (cfg : MapConfig) (net : Network) : Sem (MapI K V) (MapCluster K V)
  | .contains_op n op_id, s, x, s' => x = decide (s.recorded n op_id) ∧ s' = s
  | .count_ops n, s, x, s' => x = (s.node n).processed_ops.card ∧ s' = s
  | .clear_ops n, s, _, s' => s' = s.clear_ops n
  | .insert_op n op_id, s, _, s' => s' = s.insert_op n op_id
  | .store_local n partition key value, s, _, s' => s' = s.store_local n partition key value
  | .lookup n partition key, s, x, s' => x = s.stored n partition key ∧ s' = s
  | .dump_partition n partition, s, x, s' => x = s.dump_partition n partition ∧ s' = s
  | .has_partition n partition, s, x, s' => x = s.has_partition n partition ∧ s' = s
  | .membership n, s, x, s' => x = s.view n ∧ s' = s
  | .new_uuid _, s, x, s' => x ∉ s.used ∧ s' = s.use x
  | .iterate _ set, s, x, s' => x.Perm set ∧ s' = s
  | .send n addr req _, s, x, s' => net.allows (cfg.host n) addr x ∧ s' = s.send n addr req

theorem MapSem_lossy {K V : Type} [DecidableEq K] {cfg : MapConfig} {net : Network} (e : MapAct K V)
    (s : MapCluster K V) (x : (MapI K V).Ans e) (s' : MapCluster K V) (h : MapSem cfg net e s x s') :
    MapSem cfg .lossy e s x s' := by
  cases e with
  | send n addr req i => exact ⟨Network.lossy_allows h.1, h.2⟩
  | _ => exact h

/-- A text longer than all of them. -/
def fresh_uuid (used : Finset String) : String := String.ofList (List.replicate (used.sup String.length + 1) 'x')

theorem fresh_uuid_notMem (used : Finset String) : fresh_uuid used ∉ used := by
  intro h
  have hle : (fresh_uuid used).length ≤ used.sup String.length := Finset.le_sup (f := String.length) h
  rw [fresh_uuid, String.length_ofList, List.length_replicate] at hle
  omega

/-- One way to answer every action, if `fate` chooses what becomes of requests. -/
def MapInt {K V : Type} [DecidableEq K] (fate : NodeId → SocketAddr → Fate NodeId) :
    (e : MapAct K V) → MapCluster K V → (MapI K V).Ans e × MapCluster K V
  | .contains_op n op_id, s => (decide (s.recorded n op_id), s)
  | .count_ops n, s => ((s.node n).processed_ops.card, s)
  | .clear_ops n, s => ((), s.clear_ops n)
  | .insert_op n op_id, s => ((), s.insert_op n op_id)
  | .store_local n partition key value, s => ((), s.store_local n partition key value)
  | .lookup n partition key, s => (s.stored n partition key, s)
  | .dump_partition n partition, s => (s.dump_partition n partition, s)
  | .has_partition n partition, s => (s.has_partition n partition, s)
  | .membership n, s => (s.view n, s)
  | .new_uuid _, s => (fresh_uuid s.used, s.use (fresh_uuid s.used))
  | .iterate _ set, s => (set, s)
  | .send n addr req _, s => (fate n addr, s.send n addr req)

section Interpreter

variable {K V : Type} [DecidableEq K] {cfg : MapConfig} {net : Network} {fate : NodeId → SocketAddr → Fate NodeId}

theorem MapInt_sem (h : ∀ n addr, net.allows (cfg.host n) addr (fate n addr)) (e : MapAct K V) (s : MapCluster K V) :
    MapSem cfg net e s (MapInt fate e s).1 (MapInt fate e s).2 := by
  cases e with
  | clear_ops n => rfl
  | insert_op n op_id => rfl
  | store_local n partition key value => rfl
  | new_uuid n => exact ⟨fresh_uuid_notMem s.used, rfl⟩
  | iterate n set => exact ⟨.refl set, rfl⟩
  | send n addr req i => exact ⟨h n addr, rfl⟩
  | _ => exact ⟨rfl, rfl⟩

theorem MapInt_view (e : MapAct K V) (s : MapCluster K V) : (MapInt fate e s).2.view = s.view := by
  cases e <;> rfl

theorem view_exec {α : Type} (p : Async (MapI K V) α) (s : MapCluster K V) :
    (Async.exec (MapInt fate) p s).2.view = s.view := by
  induction p generalizing s with
  | done a => rfl
  | call e k ih => exact (ih _ _).trans (MapInt_view e s)

/-- What does not store anything leaves what is stored. -/
theorem stored_exec {α : Type} {p : Async (MapI K V) α} {s : MapCluster K V}
    (hp : Async.Meets (MapInt fate) (fun e _ _ => MapAct.is_store e = false) p s) :
    (Async.exec (MapInt fate) p s).2.stored = s.stored := by
  refine Async.Meets.keeps (f := MapCluster.stored) (fun e s he => ?_) hp
  cases e with
  | clear_ops n => funext m p k; exact MapCluster.stored_clear_ops s n m p k
  | insert_op n op_id => funext m p k; exact MapCluster.stored_insert_op s n m op_id p k
  | store_local n partition key value => cases he
  | _ => rfl

/-- Every request is lost. -/
def all_lost (_ : NodeId) (_ : SocketAddr) : Fate NodeId := .lost

theorem allows_all_lost (n : NodeId) (addr : SocketAddr) : Network.lossy.allows (cfg.host n) addr (all_lost n addr) :=
  .inr rfl

/-- Only requests to the nodes `up` are served. -/
def heard (cfg : MapConfig) (up : NodeId → Bool) (n : NodeId) (addr : SocketAddr) : Fate NodeId :=
  match cfg.host n addr with
  | some m => if up m then .replied m else .lost
  | none => .lost

theorem allows_heard (up : NodeId → Bool) (n : NodeId) (addr : SocketAddr) :
    Network.lossy.allows (cfg.host n) addr (heard cfg up n addr) := by
  unfold heard
  cases h : cfg.host n addr with
  | none => exact .inl h
  | some m =>
    dsimp only
    split
    · exact h
    · exact .inr rfl

/-- Every request is answered if somebody listens. -/
def answered (cfg : MapConfig) (n : NodeId) (addr : SocketAddr) : Fate NodeId :=
  match cfg.host n addr with
  | some m => .replied m
  | none => .lost

theorem allows_answered (net : Network) (n : NodeId) (addr : SocketAddr) :
    net.allows (cfg.host n) addr (answered cfg n addr) := by
  unfold answered
  cases h : cfg.host n addr with
  | none => exact .inl h
  | some m => exact h

theorem MapSem_total (cfg : MapConfig) (net : Network) (e : MapAct K V) (s : MapCluster K V) :
    ∃ x s', MapSem cfg net e s x s' :=
  ⟨_, _, MapInt_sem (allows_answered net) e s⟩

end Interpreter
