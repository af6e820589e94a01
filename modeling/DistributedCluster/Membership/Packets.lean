import DistributedCluster.Lib.Refinement
import DistributedCluster.Membership.Wire
/-!
# The cluster of nodes that exchange bytes

`send_to` puts the bytes of a message on the wire, if they fit into a packet, and
`receive_loop` reads them there. The runs of these nodes are the runs of the nodes
that exchange messages in which what does not fit is lost.
-/

structure Packet where
  src : SocketAddr
  dst : SocketAddr
  payload : Url.Bytes
  deriving DecidableEq

structure WireCluster where
  service : NodeId → Option MembershipService
  sent : List Packet
  now : Instant

inductive LocalWireEvent
  | gossip (target : Node)
  /-- `receive_loop` gets a packet -/
  | deliver (p : Packet)
  | tick

inductive WireEvent
  | start (id : NodeId) (bind_addr socket : SocketAddr) (seed_nodes : List SocketAddr)
  | node (id : NodeId) (e : LocalWireEvent)
  | elapse (ms : Nat)

namespace WireCluster

open MembershipService

variable (b : Bincode) (limit : UInt16)

/-- The packet of a message, if it can be serialized and is not too long: `limit` is
what the socket takes, and the length of a UDP packet has 16 bits. -/
def send_to (d : Datagram) : Option Packet :=
  match b.serialize d.msg with
  | some payload => if payload.length ≤ limit.toNat then some ⟨d.src, d.dst, payload⟩ else none
  | none => none

def react (s : MembershipService) (now : Instant) : LocalWireEvent → MembershipService × List Datagram
  | .gossip target => (s, [s.ping target])
  | .deliver p =>
    match Wire.received b p.payload with
    | some msg => s.handle_message msg p.src now
    -- the warning aside, nothing happens
    | none => (s, [])
  | .tick => s.failure_detection now

def init : WireCluster := ⟨fun _ => none, [], 0⟩

def enabled (w : WireCluster) (s : MembershipService) : LocalWireEvent → Bool
  | .gossip target => target ∈ s.gossip_targets
  | .deliver p => p ∈ w.sent ∧ p.dst.on_wire = s.socket.on_wire
  | .tick => true

def update (w : WireCluster) (id : NodeId) (r : MembershipService × List Datagram) : WireCluster :=
  { w with service := Function.update w.service id (some r.1), sent := r.2.filterMap (send_to b limit) ++ w.sent }

/-- A node whose `Join` cannot be sent does not start. -/
def step (w : WireCluster) : WireEvent → Option WireCluster
  | .start id bind_addr socket seed_nodes =>
    match w.service id with
    | some _ => none
    | none =>
      let r := MembershipService.new id bind_addr socket seed_nodes w.now
      if r.2.all fun d => (send_to b limit d).isSome then some (w.update b limit id r) else none
  | .node id e =>
    match w.service id with
    | some s => if w.enabled s e then some (w.update b limit id (react b s w.now e)) else none
    | none => none
  | .elapse ms => some { w with now := w.now + ms }

def Reachable (w : WireCluster) : Prop := ∃ es, System.run (step b limit) init es = some w

variable {b limit}

theorem send_to_eq_some {d : Datagram} {p : Packet} : send_to b limit d = some p ↔
    ∃ payload, b.serialize d.msg = some payload ∧ payload.length ≤ limit.toNat ∧ p = ⟨d.src, d.dst, payload⟩ := by
  unfold send_to
  split
  · rename_i payload h
    simp [h, eq_comm]
  · rename_i h
    simp [h]

/-- What was sent in a packet is understood. -/
theorem received_of_send_to (hb : b.RoundTrips) {d : Datagram} {p : Packet} (h : send_to b limit d = some p) :
    Wire.received b p.payload = some d.msg.on_wire := by
  obtain ⟨payload, hpayload, hlength, rfl⟩ := send_to_eq_some.1 h
  have hlimit := limit.toNat_lt
  have hfits : payload.length ≤ Wire.buffer_size := by
    unfold Wire.buffer_size
    omega
  rw [Wire.received, List.take_of_length_le hfits]
  exact hb d.msg payload hpayload

end WireCluster

namespace Cluster

open MembershipService WireCluster

variable {b : Bincode} {limit : UInt16}

theorem run_eq (c : Cluster) (es : List Event) : System.run step c es = c.run es := by
  induction es generalizing c with
  | nil => rfl
  | cons e es ih => simp [System.run, run, ih]

/-- What is on the wire of a cluster. -/
def view (b : Bincode) (limit : UInt16) (c : Cluster) : WireCluster := ⟨c.service, c.sent.filterMap (send_to b limit), c.now⟩

/-- Neither the event nor a node that starts is about a message that cannot be sent. -/
def Fitting (b : Bincode) (limit : UInt16) : Event → Prop
  | .start id bind_addr socket seed_nodes =>
    ∀ d ∈ (MembershipService.new id bind_addr socket seed_nodes 0).2, (send_to b limit d).isSome
  | .node _ (.deliver d) => (send_to b limit d).isSome
  | _ => True

theorem view_update (c : Cluster) (id : NodeId) (r : MembershipService × List Datagram) :
    (c.view b limit).update b limit id r = (c.update id r).view b limit := by
  simp [view, Cluster.update, WireCluster.update]

/-! ## What the nodes send can be read -/

/-- `Ack`s and `Join`s are made of nodes `on_wire`. -/
theorem on_wire_react (s : MembershipService) (now : Instant) (e : LocalEvent) :
    ∀ d ∈ (s.react now e).2, d.msg.on_wire = d.msg := by
  intro d hd
  cases e with
  | gossip target =>
    obtain rfl := List.mem_singleton.1 hd
    rfl
  | tick =>
    obtain ⟨msg, hmsg, hd⟩ := List.mem_flatMap.1 hd
    obtain ⟨m, -, hsus⟩ := List.mem_filterMap.1 hmsg
    obtain ⟨-, -, rfl⟩ := List.mem_map.1 hd
    unfold suspicion at hsus
    split at hsus
    · cases hsus
      rfl
    · cases hsus
  | deliver d' =>
    unfold MembershipService.react handle_message at hd
    cases hmsg : d'.msg with
    | Ping sender i =>
      simp only [hmsg] at hd
      obtain rfl := List.mem_singleton.1 hd
      simp [send, GossipMessage.on_wire]
    | Suspect x i =>
      simp only [hmsg, handle_suspect] at hd
      repeat' split at hd
      all_goals first
        | exact absurd hd List.not_mem_nil
        | (obtain ⟨-, -, rfl⟩ := List.mem_map.1 hd
           rfl)
    | Ack | Join | Alive => simp [hmsg] at hd

theorem on_wire_new (id : NodeId) (bind_addr socket : SocketAddr) (seeds : List SocketAddr) (now : Instant) :
    ∀ d ∈ (MembershipService.new id bind_addr socket seeds now).2, d.msg.on_wire = d.msg := by
  intro d hd
  obtain ⟨seed, -, rfl⟩ := List.mem_map.1 hd
  simp [send, GossipMessage.on_wire]

def Readable (c : Cluster) : Prop := ∀ d ∈ c.sent, d.msg.on_wire = d.msg

theorem Readable.step {c c' : Cluster} {e : Event} (h : c.step e = some c') (hc : Readable c) : Readable c' := by
  obtain ⟨id, b, so, seeds, -, -, rfl⟩ | ⟨id, le, s, -, hs, hen, rfl⟩ | ⟨ms, -, rfl⟩ := step_cases h
  · intro d hd
    exact (List.mem_append.1 hd).elim (on_wire_new id b so seeds c.now d) (hc d)
  · intro d hd
    exact (List.mem_append.1 hd).elim (on_wire_react s c.now le d) (hc d)
  · exact hc

theorem readable_init : Readable init := fun _ hd => absurd hd List.not_mem_nil

theorem mem_view {c : Cluster} {p : Packet} : p ∈ (c.view b limit).sent ↔ ∃ d ∈ c.sent, send_to b limit d = some p :=
  List.mem_filterMap

theorem Readable.received (hb : b.RoundTrips) {c : Cluster} (hc : Readable c) {d : Datagram} (hd : d ∈ c.sent) {p : Packet}
    (hp : send_to b limit d = some p) : Wire.received b p.payload = some d.msg := by
  rw [received_of_send_to hb hp, hc d hd]

theorem addresses_of_send_to {d : Datagram} {p : Packet} (hp : send_to b limit d = some p) : p.src = d.src ∧ p.dst = d.dst := by
  obtain ⟨payload, -, -, rfl⟩ := send_to_eq_some.1 hp
  exact ⟨rfl, rfl⟩

/-! ## The runs -/

/-- What a node does with bytes is what it does with the message. -/
theorem step_of_wire (hb : b.RoundTrips) {c : Cluster} {e : WireEvent} {w' : WireCluster} (hc : Readable c)
    (h : (c.view b limit).step b limit e = some w') :
    ∃ e' c', Fitting b limit e' ∧ c.step e' = some c' ∧ w' = c'.view b limit := by
  cases e with
  | start id bind_addr socket seeds =>
    simp only [WireCluster.step] at h
    split at h
    · cases h
    · rename_i hnone
      simp only [Option.ite_none_right_eq_some, Option.some.injEq, List.all_eq_true] at h
      obtain ⟨hfits, rfl⟩ := h
      refine ⟨.start id bind_addr socket seeds, _, hfits, ?_, view_update ..⟩
      have hid : c.service id = none := hnone
      rw [Cluster.step, hid]
      rfl
  | elapse ms =>
    cases h
    exact ⟨.elapse ms, _, trivial, rfl, rfl⟩
  | node id e =>
    simp only [WireCluster.step] at h
    split at h
    · rename_i s hs
      simp only [Option.ite_none_right_eq_some, Option.some.injEq] at h
      obtain ⟨hen, rfl⟩ := h
      have hid : c.service id = some s := hs
      suffices hlocal : ∃ e', Fitting b limit (.node id e') ∧ c.enabled s e' = true ∧
          s.react c.now e' = WireCluster.react b s c.now e by
        obtain ⟨e', hfit, hen', hreact⟩ := hlocal
        refine ⟨.node id e', c.update id (s.react c.now e'), hfit, ?_, ?_⟩
        · rw [Cluster.step, hid]
          exact if_pos hen'
        · rw [hreact, ← view_update]
          rfl
      cases e with
      | gossip target => exact ⟨.gossip target, trivial, hen, rfl⟩
      | tick => exact ⟨.tick, trivial, rfl, rfl⟩
      | deliver p =>
        obtain ⟨hp, hdst⟩ := of_decide_eq_true hen
        obtain ⟨d, hd, hpacket⟩ := mem_view.1 hp
        obtain ⟨hsrc', hdst'⟩ := addresses_of_send_to hpacket
        refine ⟨.deliver d, Option.isSome_of_eq_some hpacket, decide_eq_true ⟨hd, by rw [← hdst', hdst]⟩, ?_⟩
        rw [WireCluster.react, hc.received hb hd hpacket, hsrc']
        rfl
    · cases h

theorem wire_of_step (hb : b.RoundTrips) {c : Cluster} {e : Event} {c' : Cluster} (hc : Readable c) (he : Fitting b limit e)
    (h : c.step e = some c') : ∃ e', (c.view b limit).step b limit e' = some (c'.view b limit) := by
  obtain ⟨id, bind, so, seeds, rfl, hid, rfl⟩ | ⟨id, le, s, rfl, hs, hen, rfl⟩ | ⟨ms, rfl, rfl⟩ := step_cases h
  · refine ⟨.start id bind so seeds, ?_⟩
    have hid' : (c.view b limit).service id = none := hid
    rw [← view_update, WireCluster.step, hid']
    exact if_pos (List.all_eq_true.2 he)
  · suffices hlocal : ∃ e, (c.view b limit).enabled s e = true ∧ WireCluster.react b s c.now e = s.react c.now le by
      obtain ⟨e, hen', hreact⟩ := hlocal
      refine ⟨.node id e, ?_⟩
      have hs' : (c.view b limit).service id = some s := hs
      rw [← view_update, WireCluster.step, hs']
      refine (if_pos hen').trans ?_
      rw [← hreact]
      rfl
    cases le with
    | gossip target => exact ⟨.gossip target, hen, rfl⟩
    | tick => exact ⟨.tick, rfl, rfl⟩
    | deliver d =>
      obtain ⟨hd, hdst⟩ := of_decide_eq_true hen
      obtain ⟨p, hpacket⟩ := Option.isSome_iff_exists.1 he
      obtain ⟨hsrc', hdst'⟩ := addresses_of_send_to hpacket
      refine ⟨.deliver p, decide_eq_true ⟨mem_view.2 ⟨d, hd, hpacket⟩, by rw [hdst', hdst]⟩, ?_⟩
      rw [WireCluster.react, hc.received hb hd hpacket, hsrc']
      rfl
  · exact ⟨.elapse ms, rfl⟩

/-- The cluster of bytes is the cluster of messages, less the messages that cannot be sent. -/
theorem wire_exact (hb : b.RoundTrips) (limit : UInt16) (w : WireCluster) :
    WireCluster.Reachable b limit w ↔
      ∃ es c, (∀ e ∈ es, Fitting b limit e) ∧ init.run es = some c ∧ w = c.view b limit := by
  have hinv : ∀ c e c', Cluster.step c e = some c' → Readable c → Readable c' := fun _ _ _ h hc => hc.step h
  constructor
  · rintro ⟨es, h⟩
    obtain ⟨es', c, hes, hrun, rfl⟩ :=
      System.run_lift (view b limit) hinv (fun _ _ _ => step_of_wire hb) readable_init h
    exact ⟨es', c, hes, by rw [← run_eq, hrun], rfl⟩
  · rintro ⟨es, c, hes, hrun, rfl⟩
    exact System.run_image (view b limit) hinv (fun _ _ _ => wire_of_step hb) readable_init hes
      (by rw [run_eq, hrun])

/-! ## How many members an answer can list -/

/-- An `Ack` is sent exactly if its bytes fit. -/
theorem send_to_ack (hwidth : b.FixedWidth) {d : Datagram} {sender : NodeId} {i : UInt64} {members : List Node}
    (hd : d.msg = .Ack sender i members) : (send_to b limit d).isSome ↔ Wire.ack_size sender members ≤ limit.toNat := by
  have hlimit := limit.toNat_lt
  rw [Option.isSome_iff_exists]
  constructor
  · rintro ⟨p, hp⟩
    obtain ⟨payload, hpayload, hlength, -⟩ := send_to_eq_some.1 hp
    rw [hd] at hpayload
    rwa [← hwidth.length sender i members payload hpayload]
  · intro hle
    obtain ⟨payload, hpayload⟩ := hwidth.serializes sender i members (by omega)
    have hlength := hwidth.length sender i members payload hpayload
    exact ⟨_, send_to_eq_some.2 ⟨payload, by rw [hd, hpayload], by omega, rfl⟩⟩

/-- The id of the node is a UUID, and its addresses are those of IPv4. -/
structure Usual (m : Node) : Prop where
  id : m.id.text.utf8ByteSize = 36
  gossip_addr : ∃ bits, m.gossip_addr.ip = .v4 bits
  http_addr : ∃ bits, m.http_addr.ip = .v4 bits

instance (m : Node) : Decidable (Usual m) :=
  have hv4 : ∀ addr : SocketAddr, (∃ bits, addr.ip = .v4 bits) ↔ Wire.SocketAddr.size addr = 10 := by
    intro addr
    cases addr <;> simp [Wire.SocketAddr.size, SocketAddr.ip]
  decidable_of_iff (m.id.text.utf8ByteSize = 36 ∧ Wire.SocketAddr.size m.gossip_addr = 10 ∧ Wire.SocketAddr.size m.http_addr = 10)
    ⟨fun ⟨hid, hgossip, hhttp⟩ => ⟨hid, (hv4 _).2 hgossip, (hv4 _).2 hhttp⟩,
      fun ⟨hid, hgossip, hhttp⟩ => ⟨hid, (hv4 _).1 hgossip, (hv4 _).1 hhttp⟩⟩

theorem Usual.size {m : Node} (h : Usual m) : Wire.Node.size m = 76 := by
  obtain ⟨hid, ⟨g, hgossip⟩, a, hhttp⟩ := h
  simp only [Wire.Node.size, Wire.SocketAddr.size, hid, hgossip, hhttp]

theorem ack_size_usual {sender : NodeId} (hsender : sender.text.utf8ByteSize = 36) {members : List Node}
    (h : ∀ m ∈ members, Usual m) : Wire.ack_size sender members = 64 + 76 * members.length := by
  have hsize : members.map Wire.Node.size = members.map fun _ => 76 := List.map_congr_left fun m hm => (h m hm).size
  simp only [Wire.ack_size, hsender, hsize, List.map_const', List.sum_replicate, nsmul_eq_mul, Nat.cast_id]
  omega

/-- What a node sends when a packet brings it a ping: the `Ack` with all its members, if that fits. -/
theorem ping_answer (hb : b.RoundTrips) {w w' : WireCluster} (hw : WireCluster.Reachable b limit w) {y : NodeId}
    {p : Packet} {sender : NodeId} {i : UInt64} (hp : Wire.received b p.payload = some (.Ping sender i))
    (h : w.step b limit (.node y (.deliver p)) = some w') :
    ∃ s', w'.service y = some s' ∧
      w'.sent = (send_to b limit (s'.send p.src (.Ack s'.local_id 1 (s'.members.values.map Node.on_wire)))).toList ++
        w.sent := by
  -- the state is the image of one of the cluster of messages
  have hstep : ∀ c e c', Cluster.step c e = some c' → Readable c → Readable c' := fun _ _ _ h hc => hc.step h
  obtain ⟨es, hw⟩ := hw
  obtain ⟨es', c, -, hrun, rfl⟩ := System.run_lift (view b limit) hstep (fun _ _ _ => step_of_wire hb) readable_init hw
  have hreach : Cluster.Reachable c := ⟨es', by rw [← run_eq, hrun]⟩
  have hfirst := first_reachable hreach
  have hc : Readable c := reachable_induction readable_init hstep hreach
  simp only [WireCluster.step] at h
  split at h
  · rename_i s hs
    simp only [Option.ite_none_right_eq_some, Option.some.injEq] at h
    obtain ⟨hen, rfl⟩ := h
    obtain ⟨hsent, -⟩ := of_decide_eq_true hen
    obtain ⟨d, hd, hpacket⟩ := mem_view.1 hsent
    have hmsg : d.msg = .Ping sender i := Option.some.inj ((hc.received hb hd hpacket).symm.trans hp)
    have hping := hfirst.sent d hd
    rw [hmsg] at hping
    obtain rfl : i = 1 := hping
    have hone : FirstMessage (.Ping sender 1) := rfl
    have hs' := (first_handle_message (hfirst.service y s hs) hone p.src c.now).1
    refine ⟨(s.handle_ping sender 1 p.src c.now).1, ?_, ?_⟩
    · simp only [WireCluster.update, WireCluster.react, hp]
      exact Function.update_self ..
    · simp only [WireCluster.update, WireCluster.react, hp]
      show (s.handle_ping sender 1 p.src c.now).2.filterMap (send_to b limit) ++ _ = _
      rw [handle_ping_reply hs', List.filterMap_cons, List.filterMap_nil]
      cases send_to b limit _ <;> rfl
  · cases h

/-- A ping is answered as long as the members of the view, `Dead` ones included, fit
into a packet: of the usual ones 861 into 65507 bytes. -/
theorem ping_answered (hb : b.RoundTrips) (hwidth : b.FixedWidth) {limit : UInt16} {w w' : WireCluster}
    (hw : WireCluster.Reachable b limit w) {y : NodeId} {p : Packet} {sender : NodeId} {i : UInt64}
    (hp : Wire.received b p.payload = some (.Ping sender i)) (h : w.step b limit (.node y (.deliver p)) = some w')
    {s' : MembershipService} (hs' : w'.service y = some s') (hid : s'.local_id.text.utf8ByteSize = 36)
    (husual : ∀ m ∈ s'.members.values, Usual m) :
    if 64 + 76 * s'.members.values.length ≤ limit.toNat then
      ∃ reply, w'.sent = reply :: w.sent ∧ reply.dst = p.src ∧
        Wire.received b reply.payload = some (.Ack s'.local_id 1 (s'.members.values.map Node.on_wire))
    else w'.sent = w.sent := by
  obtain ⟨s'', hs'', hsent⟩ := ping_answer hb hw hp h
  obtain rfl : s'' = s' := Option.some.inj (hs''.symm.trans hs')
  have hfits : (send_to b limit (s''.send p.src (.Ack s''.local_id 1 (s''.members.values.map Node.on_wire)))).isSome ↔ _ :=
    send_to_ack hwidth rfl
  rw [Wire.ack_size_on_wire, ack_size_usual hid husual] at hfits
  rw [hsent]
  split
  · rename_i hle
    obtain ⟨reply, hreply⟩ := Option.isSome_iff_exists.1 (hfits.2 hle)
    refine ⟨reply, by rw [hreply]; rfl, (addresses_of_send_to hreply).2, ?_⟩
    rw [received_of_send_to hb hreply]
    simp [MembershipService.send, GossipMessage.on_wire]
  · rename_i hlt
    have hnone := Option.not_isSome_iff_eq_none.1 fun hfit => hlt (hfits.1 hfit)
    rw [hnone]
    rfl

section Answer

def first_uuid : NodeId := ⟨"00000000-0000-4000-8000-00000000000a"⟩

def second_uuid : NodeId := ⟨"00000000-0000-4000-8000-00000000000b"⟩

def newcomer : Node :=
  { id := second_uuid, gossip_addr := loopback 5001, http_addr := http_of (loopback 5001), state := .Alive, incarnation := 1,
    last_seen := none }

def packet (src dst : SocketAddr) (msg : GossipMessage) : Packet := ⟨src, dst, (Wire.bincode.serialize msg).getD []⟩

/-- The second node joins at the first one, which pings it. -/
def newcomer_events : List WireEvent :=
  [.start first_uuid (loopback 5000) (loopback 5000) [], .start second_uuid (loopback 5001) (loopback 5001) [loopback 5000],
    .node first_uuid (.deliver (packet (loopback 5001) (loopback 5000) (.Join newcomer))),
    .node first_uuid (.gossip { newcomer with last_seen := some 0 })]

def first_ping : Packet := packet (loopback 5000) (loopback 5001) (.Ping first_uuid 1)

def pinged_run : Option WireCluster := System.run (WireCluster.step Wire.bincode 65507) WireCluster.init newcomer_events

/-- The cluster when the ping has been sent. -/
def pinged : WireCluster := pinged_run.get (by decide +kernel)

theorem pinged_reachable : WireCluster.Reachable Wire.bincode 65507 pinged := ⟨newcomer_events, (Option.some_get _).symm⟩

/-- The cluster when the ping has been taken. -/
def ponged : WireCluster := (pinged.step Wire.bincode 65507 (.node second_uuid (.deliver first_ping))).get (by decide +kernel)

def ponged_service : MembershipService := (ponged.service second_uuid).get (by decide +kernel)

theorem wire_exact_when_pinged :
    ∃ es c, (∀ e ∈ es, Fitting Wire.bincode 65507 e) ∧ init.run es = some c ∧ pinged = c.view Wire.bincode 65507 :=
  (wire_exact Wire.bincode_roundTrips 65507 pinged).1 pinged_reachable

theorem ping_answered_by_newcomer :
    ∃ reply, ponged.sent = reply :: pinged.sent ∧ reply.dst = first_ping.src ∧
      Wire.received Wire.bincode reply.payload =
        some (.Ack ponged_service.local_id 1 (ponged_service.members.values.map Node.on_wire)) := by
  have hping : Wire.received Wire.bincode first_ping.payload = some (.Ping first_uuid 1) := by decide +kernel
  have htaken : pinged.step Wire.bincode 65507 (.node second_uuid (.deliver first_ping)) = some ponged :=
    (Option.some_get _).symm
  have hservice : ponged.service second_uuid = some ponged_service := (Option.some_get _).symm
  have h := ping_answered Wire.bincode_roundTrips Wire.bincode_fixedWidth pinged_reachable hping htaken hservice
    (by decide +kernel) (by decide +kernel)
  rwa [if_pos (by decide +kernel)] at h

end Answer

end Cluster
