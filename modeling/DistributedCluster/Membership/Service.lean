import DistributedCluster.Lib.DashMap
import DistributedCluster.Membership.Types
/-!
# Membership service

`membership/service.rs`. A handler is one step: it takes the service and the
clock and yields the service afterwards and the datagrams it sends. What the
log lines report is left out.
-/

/-- One node's service. `socket` is what its datagrams carry as their source:
the bound address, or the interface's for a wildcard bind. -/
structure MembershipService where
  local_node : Node
  members : DashMap NodeId Node
  socket : SocketAddr
  incarnation : UInt64

/-- A message on its way to an address. -/
structure Datagram where
  src : SocketAddr
  dst : SocketAddr
  msg : GossipMessage
  deriving DecidableEq, Repr

/-- `port + 1000` in `u16`. -/
def http_of (addr : SocketAddr) : SocketAddr := .new addr.ip (addr.port + 1000)

/-- What is serialized of a node; `last_seen` is `#[serde(skip)]`. -/
def Node.on_wire (node : Node) : Node :=
  { node with gossip_addr := node.gossip_addr.on_wire, http_addr := node.http_addr.on_wire, last_seen := none }

namespace MembershipService

def SUSPECT_TIMEOUT : Nat := 5000
def DEAD_TIMEOUT : Nat := 10000

def local_id (s : MembershipService) : NodeId := s.local_node.id

def set_member (s : MembershipService) (node_id : NodeId) (node : Node) : MembershipService :=
  { s with members := s.members.insert node_id node }

def send (s : MembershipService) (dst : SocketAddr) (msg : GossipMessage) : Datagram := ⟨s.socket, dst, msg⟩

def new (id : NodeId) (bind_addr socket : SocketAddr) (seed_nodes : List SocketAddr) (now : Instant) :
    MembershipService × List Datagram :=
  let local_node : Node :=
    { id, gossip_addr := bind_addr, http_addr := http_of bind_addr, state := .Alive, incarnation := 1,
      last_seen := some now }
  let s : MembershipService :=
    { local_node, members := (∅ : DashMap NodeId Node).insert id local_node, socket, incarnation := 1 }
  (s, seed_nodes.map fun seed => s.send seed (.Join local_node.on_wire))

def get_member (s : MembershipService) (node_id : NodeId) : Option Node := s.members.lookup node_id

def get_alive_members (s : MembershipService) : List Node :=
  s.members.values.filter fun node => node.state == .Alive

/-- To every other member that is `Alive` in the local view. -/
def broadcast_message (s : MembershipService) (msg : GossipMessage) : List Datagram :=
  (s.members.values.filter fun m => m.id != s.local_id && m.state == .Alive).map fun m =>
    s.send m.gossip_addr msg

/-- The members one tick of `gossip_loop` picks its target from. -/
def gossip_targets (s : MembershipService) : List Node :=
  s.members.values.filter fun m => m.id != s.local_id && m.state == .Alive

def ping (s : MembershipService) (target : Node) : Datagram :=
  s.send target.gossip_addr (.Ping s.local_id s.incarnation)

@[simp] theorem set_member_local_id (s : MembershipService) (node_id : NodeId) (node : Node) :
    (s.set_member node_id node).local_id = s.local_id := rfl

@[simp] theorem set_member_incarnation (s : MembershipService) (node_id : NodeId) (node : Node) :
    (s.set_member node_id node).incarnation = s.incarnation := rfl

@[simp] theorem get_set_member (s : MembershipService) (node_id x : NodeId) (node : Node) :
    (s.set_member node_id node).get_member x = if x = node_id then some node else s.get_member x :=
  DashMap.lookup_insert_eq s.members node_id x node

theorem mem_values {s : MembershipService} {m : Node} : m ∈ s.members.values ↔ ∃ x, s.get_member x = some m :=
  DashMap.mem_values

/-! ## Handlers -/

def handle_ping (s : MembershipService) (sender : NodeId) (sender_incarnation : UInt64) (src : SocketAddr)
    (now : Instant) : MembershipService × List Datagram :=
  let s := match s.get_member sender with
    | some member =>
      s.set_member sender { member with
        last_seen := some now
        incarnation := if sender_incarnation > member.incarnation then sender_incarnation else member.incarnation }
    | none =>
      s.set_member sender
        { id := sender, gossip_addr := src, http_addr := http_of src, state := .Alive,
          incarnation := sender_incarnation, last_seen := some now }
  (s, [s.send src (.Ack s.local_id s.incarnation (s.members.values.map Node.on_wire))])

/-- A higher incarnation wins; a dead member stays dead. -/
def merge_member (now : Instant) (s : MembershipService) (new_member : Node) : MembershipService :=
  match s.get_member new_member.id with
  | some existing =>
    if existing.state = .Dead then s
    else if new_member.incarnation > existing.incarnation then
      s.set_member new_member.id { existing with
        state := new_member.state
        incarnation := new_member.incarnation
        last_seen := some now }
    else s
  | none =>
    if new_member.state = .Dead then s
    else s.set_member new_member.id { new_member with last_seen := some now }

def handle_ack (s : MembershipService) (sender : NodeId) (sender_incarnation : UInt64) (members : List Node)
    (now : Instant) : MembershipService :=
  match s.get_member sender with
  | some member =>
    if member.state = .Dead then s
    else
      let s := s.set_member sender { member with
        last_seen := some now
        incarnation := if sender_incarnation > member.incarnation then sender_incarnation else member.incarnation }
      members.foldl (merge_member now) s
  | none => members.foldl (merge_member now) s

/-- About the local node: raise the incarnation and tell the others. About
another: believe it. Either way only if `incarnation` is newer. -/
def handle_suspect (s : MembershipService) (node_id : NodeId) (incarnation : UInt64) (now : Instant) :
    MembershipService × List Datagram :=
  match s.get_member node_id with
  | some existing =>
    if existing.state = .Dead then (s, [])
    else if incarnation > existing.incarnation then
      if existing.id = s.local_id then
        -- a `u64`, after whose largest value comes 0
        let my_incarnation := s.incarnation + 1
        let s := { s with incarnation := my_incarnation }.set_member node_id
          { existing with incarnation := my_incarnation, state := .Alive, last_seen := some now }
        (s, s.broadcast_message (.Alive node_id my_incarnation))
      else
        (s.set_member node_id { existing with state := .Suspect, incarnation, last_seen := some now }, [])
    else (s, [])
  | none => (s, [])

def handle_alive (s : MembershipService) (node_id : NodeId) (incarnation : UInt64) (now : Instant) :
    MembershipService :=
  match s.get_member node_id with
  | some existing =>
    if existing.state = .Dead then s
    else if incarnation > existing.incarnation then
      s.set_member node_id { existing with state := .Alive, incarnation, last_seen := some now }
    else if incarnation = existing.incarnation ∧ existing.state = .Suspect then
      s.set_member node_id { existing with state := .Alive, incarnation, last_seen := some now }
    else s
  | none => s

def handle_join (s : MembershipService) (node : Node) (now : Instant) : MembershipService :=
  s.set_member node.id { node with last_seen := some now }

def handle_message (s : MembershipService) (msg : GossipMessage) (src : SocketAddr) (now : Instant) :
    MembershipService × List Datagram :=
  match msg with
  | .Ping sender incarnation => s.handle_ping sender incarnation src now
  | .Ack sender incarnation members => (s.handle_ack sender incarnation members now, [])
  | .Join node => (s.handle_join node now, [])
  | .Suspect node_id incarnation => s.handle_suspect node_id incarnation now
  | .Alive node_id incarnation => (s.handle_alive node_id incarnation now, [])

/-! ## Failure detection -/

/-- What one tick makes of one member. -/
def detect (local_id : NodeId) (now : Instant) (member : Node) : Node :=
  if member.id = local_id ∨ member.state = .Dead then member
  else match member.last_seen with
    | none => { member with last_seen := some now }
    | some last_seen =>
      match member.state with
      | .Alive => if now - last_seen > SUSPECT_TIMEOUT then { member with state := .Suspect } else member
      | .Suspect => if now - last_seen > DEAD_TIMEOUT then { member with state := .Dead } else member
      | .Dead => member

/-- The suspicion a tick raises about a member, if it raises one. -/
def suspicion (local_id : NodeId) (now : Instant) (member : Node) : Option GossipMessage :=
  if member.state = .Alive ∧ (detect local_id now member).state = .Suspect then
    some (.Suspect member.id member.incarnation)
  else none

/-- One tick of `failure_detection_loop`. -/
def failure_detection (s : MembershipService) (now : Instant) : MembershipService × List Datagram :=
  let messages := s.members.values.filterMap (suspicion s.local_id now)
  let s := { s with members := s.members.mapValues (detect s.local_id now) }
  (s, messages.flatMap s.broadcast_message)

end MembershipService
