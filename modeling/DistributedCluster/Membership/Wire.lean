import Mathlib.Algebra.Order.BigOperators.Group.List
import DistributedCluster.Lib.Codec
import DistributedCluster.Membership.LateJoin
/-!
# Gossip on the wire

What `bincode` does with a `GossipMessage` is a parameter; of it the nodes rely on
what it reads being what was written, as far as that is serialized.
-/

@[simp] theorem Node.on_wire_on_wire (node : Node) : node.on_wire.on_wire = node.on_wire := by simp [Node.on_wire, SocketAddr.on_wire]

/-- What is serialized of a message. -/
def GossipMessage.on_wire : GossipMessage → GossipMessage
  | .Ack sender incarnation members => .Ack sender incarnation (members.map Node.on_wire)
  | .Join node => .Join node.on_wire
  | msg => msg

/-- `bincode::serialize` and `bincode::deserialize` of a `GossipMessage`. Bytes that are
left over are no error. -/
structure Bincode where
  serialize : GossipMessage → Option Url.Bytes
  deserialize : Url.Bytes → Option GossipMessage

namespace Wire

/-- The bytes of an address: its kind, its IP and its port. -/
def SocketAddr.size (addr : SocketAddr) : Nat :=
  match addr.ip with
  | .v4 _ => 10
  | .v6 _ => 22

/-- The bytes of a node; its state has 4 and its incarnation 8 of them. -/
def Node.size (m : Node) : Nat := 8 + m.id.text.utf8ByteSize + SocketAddr.size m.gossip_addr + SocketAddr.size m.http_addr + 12

/-- The bytes of an `Ack`; 28 of them are its kind, two lengths and the incarnation. -/
def ack_size (sender : NodeId) (members : List Node) : Nat :=
  28 + sender.text.utf8ByteSize + (members.map Node.size).sum

theorem Node.size_on_wire (m : Node) : Node.size m.on_wire = Node.size m := by
  have haddr : ∀ addr : SocketAddr, SocketAddr.size addr.on_wire = SocketAddr.size addr := fun addr => by
    simp [SocketAddr.size, SocketAddr.on_wire]
  simp [Node.size, Node.on_wire, haddr]

theorem ack_size_on_wire (sender : NodeId) (members : List Node) :
    ack_size sender (members.map Node.on_wire) = ack_size sender members := by
  have hsizes : (members.map Node.on_wire).map Node.size = members.map Node.size := by
    rw [List.map_map]
    exact List.map_congr_left fun m _ => Node.size_on_wire m
  rw [ack_size, hsizes, ack_size]

/-- The bytes that `receive_loop` has room for. -/
def buffer_size : Nat := 65536

/-- `recv_from` into the buffer, and what `bincode` reads from there. -/
def received (b : Bincode) (payload : Url.Bytes) : Option GossipMessage := b.deserialize (payload.take buffer_size)

end Wire

namespace Bincode

/-- What was serialized is read back. -/
def RoundTrips (b : Bincode) : Prop :=
  ∀ msg bytes, b.serialize msg = some bytes → b.deserialize bytes = some msg.on_wire

/-- Words of a fixed width: variants in 32 bits, lengths and incarnations in 64. -/
structure FixedWidth (b : Bincode) : Prop where
  length : ∀ sender incarnation members bytes, b.serialize (.Ack sender incarnation members) = some bytes →
    bytes.length = Wire.ack_size sender members
  serializes : ∀ sender incarnation members, Wire.ack_size sender members < 2 ^ 16 →
    ∃ bytes, b.serialize (.Ack sender incarnation members) = some bytes

end Bincode

/-! ## An instance -/

namespace Wire

open Codec

def u32 : Codec Nat := word .little_endian 4

def u64 : Codec Nat := word .little_endian 8

def incarnation : Codec UInt64 := u64.refine (fun _ => true) (fun n => some (UInt64.ofNat n)) UInt64.toNat (fun i _ => by simp)

def port : Codec UInt16 :=
  (word .little_endian 2).refine (fun _ => true) (fun n => some (UInt16.ofNat n)) UInt16.toNat (fun p _ => by simp)

/-- The bytes of an IP address, `[u8; N]`. -/
def octets (width : Nat) : Codec (BitVec (8 * width)) :=
  (word .big_endian width).refine (fun _ => true) (fun n => some (BitVec.ofNat (8 * width) n)) BitVec.toNat
    (fun bits _ => by simp)

inductive IpKind
  | V4
  | V6
  deriving DecidableEq

def IpKind.width : IpKind → Nat
  | .V4 => 4
  | .V6 => 16

def ip_kind : Codec IpKind := index u32 [.V4, .V6]

def socket_addr : Codec SocketAddr :=
  (ip_kind.sigma fun kind : IpKind => (octets kind.width).pair port).refine (fun addr => addr.on_wire = addr)
    (fun
      | ⟨.V4, bits, p⟩ => some (.V4 bits p)
      | ⟨.V6, bits, p⟩ => some (.V6 bits p 0 0))
    (fun
      | .V4 bits p => ⟨.V4, bits, p⟩
      | .V6 bits p _ _ => ⟨.V6, bits, p⟩)
    (fun addr h => by
      rw [← of_decide_eq_true h]
      cases addr <;> rfl)

def node_id : Codec NodeId := (text u64).refine (fun _ => true) (fun s => some ⟨s⟩) NodeId.text (fun _ _ => rfl)

def node_state : Codec NodeState := index u32 [.Alive, .Suspect, .Dead]

def node : Codec Node :=
  (node_id.pair (socket_addr.pair (socket_addr.pair (node_state.pair incarnation)))).refine (fun m => m.last_seen = none)
    (fun (id, gossip_addr, http_addr, state, incarnation) =>
      some { id, gossip_addr, http_addr, state, incarnation, last_seen := none })
    (fun m => (m.id, m.gossip_addr, m.http_addr, m.state, m.incarnation))
    (fun m h => by rw [← of_decide_eq_true h])

inductive MessageKind
  | Ping
  | Ack
  | Join
  | Suspect
  | Alive
  deriving DecidableEq

abbrev MessageKind.Fields : MessageKind → Type
  | .Ping | .Suspect | .Alive => NodeId × UInt64
  | .Ack => NodeId × UInt64 × List Node
  | .Join => Node

def fields : (kind : MessageKind) → Codec kind.Fields
  | .Ping | .Suspect | .Alive => node_id.pair incarnation
  | .Ack => node_id.pair (incarnation.pair (counted u64 node))
  | .Join => node

def message_kind : Codec MessageKind := index u32 [.Ping, .Ack, .Join, .Suspect, .Alive]

def of_fields : (Σ kind : MessageKind, kind.Fields) → GossipMessage
  | ⟨.Ping, sender, incarnation⟩ => .Ping sender incarnation
  | ⟨.Ack, sender, incarnation, members⟩ => .Ack sender incarnation members
  | ⟨.Join, node⟩ => .Join node
  | ⟨.Suspect, node_id, incarnation⟩ => .Suspect node_id incarnation
  | ⟨.Alive, node_id, incarnation⟩ => .Alive node_id incarnation

def to_fields : GossipMessage → Σ kind : MessageKind, kind.Fields
  | .Ping sender incarnation => ⟨.Ping, sender, incarnation⟩
  | .Ack sender incarnation members => ⟨.Ack, sender, incarnation, members⟩
  | .Join node => ⟨.Join, node⟩
  | .Suspect node_id incarnation => ⟨.Suspect, node_id, incarnation⟩
  | .Alive node_id incarnation => ⟨.Alive, node_id, incarnation⟩

def gossip : Codec GossipMessage :=
  (message_kind.sigma fields).refine (fun _ => true) (fun parts => some (of_fields parts)) to_fields
    (fun msg _ => by cases msg <;> rfl)

/-- The layout of `bincode` 1, whose lengths have 64 bits. -/
def bincode : Bincode where
  serialize msg := if gossip.valid msg.on_wire = true then some (gossip.encode msg.on_wire) else none
  deserialize bytes := (gossip.decode bytes).map Prod.fst

example : bincode.serialize (.Ping ⟨"n1"⟩ 258) = some
    [0, 0, 0, 0, 2, 0, 0, 0, 0, 0, 0, 0, 110, 49, 2, 1, 0, 0, 0, 0, 0, 0] := by decide

theorem bincode_roundTrips : bincode.RoundTrips := by
  intro msg bytes h
  simp only [bincode, Option.ite_none_right_eq_some, Option.some.injEq] at h ⊢
  obtain ⟨hvalid, rfl⟩ := h
  have hdecode := gossip.decode_encode msg.on_wire hvalid []
  rw [List.append_nil] at hdecode
  rw [hdecode]
  rfl

theorem length_socket_addr (addr : SocketAddr) : (socket_addr.encode addr).length = SocketAddr.size addr := by
  have hparts : ∀ kind (bits : BitVec (8 * IpKind.width kind)) p,
      ((ip_kind.sigma fun kind : IpKind => (octets kind.width).pair port).encode ⟨kind, bits, p⟩).length =
        4 + (kind.width + 2) := by
    intro kind bits p
    simp [ip_kind, u32, octets, port, encode_refine]
  cases addr with
  | V4 bits p => exact hparts .V4 bits p
  | V6 bits p flowinfo scope_id => exact hparts .V6 bits p

theorem length_node_id (id : NodeId) : (node_id.encode id).length = 8 + id.text.utf8ByteSize :=
  (length_text u64 id.text).trans (by simp [u64])

theorem length_incarnation (i : UInt64) : (incarnation.encode i).length = 8 := by simp [incarnation, encode_refine, u64]

theorem length_node (m : Node) : (node.encode m).length = Node.size m := by
  simp only [node, encode_refine, length_pair, length_node_id, length_socket_addr, node_state, u32, length_index,
    length_incarnation, Node.size]
  omega

theorem length_ack (sender : NodeId) (i : UInt64) (members : List Node) :
    (gossip.encode (.Ack sender i members)).length = ack_size sender members := by
  have hfields : ((fields .Ack).encode (sender, i, members)).length =
      8 + sender.text.utf8ByteSize + (8 + (8 + (members.map Node.size).sum)) := by
    simp [fields, length_node_id, length_incarnation, length_node, u64]
  simp only [gossip, encode_refine, to_fields, length_sigma, hfields, message_kind, u32, length_index, ack_size]
  omega

theorem valid_node_id {id : NodeId} (h : id.text.utf8ByteSize < 2 ^ 64) : node_id.valid id = true := by
  simpa [node_id, u64] using h

theorem valid_incarnation (i : UInt64) : incarnation.valid i = true := by
  simpa [incarnation, u64] using i.toNat_lt

theorem valid_octets {width : Nat} (bits : BitVec (8 * width)) : (octets width).valid bits = true := by
  have hlt := bits.isLt
  rw [Nat.pow_mul] at hlt
  simpa [octets] using hlt

theorem valid_port (p : UInt16) : port.valid p = true := by
  simpa [port] using p.toNat_lt

theorem valid_socket_addr (addr : SocketAddr) : socket_addr.valid addr.on_wire = true := by
  have hkind : ∀ kind, ip_kind.valid kind = true := fun kind => valid_index (by cases kind <;> decide) (by decide)
  refine valid_refine.2 ⟨by simp [SocketAddr.on_wire], valid_sigma.2 ⟨hkind _, valid_pair.2 ⟨valid_octets _, valid_port _⟩⟩⟩

theorem valid_node {m : Node} (h : m.id.text.utf8ByteSize < 2 ^ 64) : node.valid m.on_wire = true := by
  have hstate : node_state.valid m.state = true := valid_index (by cases m.state <;> decide) (by decide)
  simp only [node, valid_refine, valid_pair]
  exact ⟨decide_eq_true rfl, valid_node_id h, valid_socket_addr _, valid_socket_addr _, hstate, valid_incarnation _⟩

theorem valid_ack {sender : NodeId} {i : UInt64} {members : List Node} (h : ack_size sender members < 2 ^ 64) :
    gossip.valid (.Ack sender i (members.map Node.on_wire)) = true := by
  have hone : ∀ m ∈ members, Node.size m ≤ (members.map Node.size).sum :=
    fun m hm => List.le_sum_of_mem (List.mem_map_of_mem hm)
  have hcount : members.length ≤ (members.map Node.size).sum := by
    simpa using List.length_le_sum_of_one_le (members.map Node.size) (by simp [Node.size])
  have hkind : message_kind.valid .Ack = true := valid_index (by decide) (by decide)
  unfold ack_size at h
  have hsender : sender.text.utf8ByteSize < 2 ^ 64 := by omega
  have hmembers : (counted u64 node).valid (members.map Node.on_wire) = true := by
    rw [valid_counted, List.length_map]
    refine ⟨valid_word.2 (by omega), fun m' hm' => ?_⟩
    obtain ⟨m, hm, rfl⟩ := List.mem_map.1 hm'
    have hsize : Node.size m = 8 + m.id.text.utf8ByteSize + _ + _ + 12 := rfl
    have hm := hone m hm
    exact valid_node (by omega)
  exact valid_refine.2 ⟨rfl, valid_sigma.2 ⟨hkind, valid_pair.2 ⟨valid_node_id hsender, valid_pair.2 ⟨valid_incarnation i, hmembers⟩⟩⟩⟩

theorem bincode_fixedWidth : bincode.FixedWidth where
  length sender i members bytes h := by
    simp only [bincode, Option.ite_none_right_eq_some, Option.some.injEq] at h
    obtain ⟨-, rfl⟩ := h
    rw [GossipMessage.on_wire, length_ack, ack_size_on_wire]
  serializes sender i members h := ⟨_, if_pos (valid_ack (by omega))⟩

end Wire
