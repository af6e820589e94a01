import Mathlib.Order.Lattice
import Mathlib.Data.String.Basic
/-!
# Membership data types

`membership/types.rs`: who is in the cluster and what the nodes tell each other.
-/

/-- A UUID string. -/
structure NodeId where
  text : String
  deriving DecidableEq, Repr

namespace NodeId

theorem text_injective : Function.Injective text := by
  rintro ⟨a⟩ ⟨b⟩ rfl
  rfl

/-- `a.0.cmp(&b.0)`: ids compare as their strings do. -/
instance : LinearOrder NodeId := LinearOrder.lift' text text_injective

end NodeId

inductive NodeState
  | Alive
  | Suspect
  | Dead
  deriving DecidableEq, Repr

inductive IpAddr
  | v4 (bits : BitVec 32)
  | v6 (bits : BitVec 128)
  deriving DecidableEq, Repr

/-- An IPv6 address also names a flow and the interface of a link-local address. -/
inductive SocketAddr
  | V4 (ip : BitVec 32) (port : UInt16)
  | V6 (ip : BitVec 128) (port : UInt16) (flowinfo scope_id : UInt32)
  deriving DecidableEq, Repr

namespace SocketAddr

def new : IpAddr → UInt16 → SocketAddr
  | .v4 ip, port => .V4 ip port
  | .v6 ip, port => .V6 ip port 0 0

def ip : SocketAddr → IpAddr
  | V4 ip _ => .v4 ip
  | V6 ip _ _ _ => .v6 ip

def port : SocketAddr → UInt16
  | V4 _ port => port
  | V6 _ port _ _ => port

def flowinfo : SocketAddr → UInt32
  | V4 _ _ => 0
  | V6 _ _ flowinfo _ => flowinfo

def scope_id : SocketAddr → UInt32
  | V4 _ _ => 0
  | V6 _ _ _ scope_id => scope_id

/-- Only the IP and the port are serialized. -/
def on_wire (addr : SocketAddr) : SocketAddr := new addr.ip addr.port

@[simp] theorem ip_new (ip : IpAddr) (port : UInt16) : (new ip port).ip = ip := by cases ip <;> rfl

@[simp] theorem port_new (ip : IpAddr) (port : UInt16) : (new ip port).port = port := by cases ip <;> rfl

@[simp] theorem flowinfo_new (ip : IpAddr) (port : UInt16) : (new ip port).flowinfo = 0 := by cases ip <;> rfl

@[simp] theorem scope_id_new (ip : IpAddr) (port : UInt16) : (new ip port).scope_id = 0 := by cases ip <;> rfl

@[simp] theorem on_wire_new (ip : IpAddr) (port : UInt16) : (new ip port).on_wire = new ip port := by cases ip <;> rfl

theorem on_wire_eq_iff {addr : SocketAddr} : addr.on_wire = addr ↔ addr.flowinfo = 0 ∧ addr.scope_id = 0 := by
  cases addr with
  | V4 ip port => exact iff_of_true rfl ⟨rfl, rfl⟩
  | V6 ip port flowinfo scope_id => simp [on_wire, new, SocketAddr.ip, SocketAddr.port, SocketAddr.flowinfo, SocketAddr.scope_id, eq_comm]

theorem eq_of_parts {a b : SocketAddr} (hip : a.ip = b.ip) (hport : a.port = b.port) (hflow : a.flowinfo = b.flowinfo)
    (hscope : a.scope_id = b.scope_id) : a = b := by
  cases a <;> cases b <;> simp_all [SocketAddr.ip, SocketAddr.port, SocketAddr.flowinfo, SocketAddr.scope_id]

end SocketAddr

/-- Milliseconds of the local monotonic clock. -/
abbrev Instant := Nat

structure Node where
  id : NodeId
  gossip_addr : SocketAddr
  http_addr : SocketAddr
  state : NodeState
  incarnation : UInt64
  last_seen : Option Instant
  deriving DecidableEq, Repr

inductive GossipMessage
  | Ping (sender : NodeId) (incarnation : UInt64)
  | Ack (sender : NodeId) (incarnation : UInt64) (members : List Node)
  | Join (node : Node)
  | Suspect (node_id : NodeId) (incarnation : UInt64)
  | Alive (node_id : NodeId) (incarnation : UInt64)
  deriving DecidableEq, Repr
