import DistributedCluster.Membership.Service
/-!
# The cluster of gossiping nodes

Every datagram ever sent stays in `sent` and may be delivered at any time, any
number of times, or never: loss, delay, duplication and reordering. A node that
crashes takes no further step.
-/

structure Cluster where
  service : NodeId → Option MembershipService
  sent : List Datagram
  now : Instant

/-- What can happen at a running node. -/
inductive LocalEvent
  /-- one tick of `gossip_loop`, with the target it picks -/
  | gossip (target : Node)
  /-- `receive_loop` gets a datagram -/
  | deliver (d : Datagram)
  /-- one tick of `failure_detection_loop` -/
  | tick

inductive Event
  | start (id : NodeId) (bind_addr socket : SocketAddr) (seed_nodes : List SocketAddr)
  | node (id : NodeId) (e : LocalEvent)
  | elapse (ms : Nat)

namespace MembershipService

def react (s : MembershipService) (now : Instant) : LocalEvent → MembershipService × List Datagram
  | .gossip target => (s, [s.ping target])
  | .deliver d => s.handle_message d.msg d.src now
  | .tick => s.failure_detection now

end MembershipService

namespace Cluster

def init : Cluster := ⟨fun _ => none, [], 0⟩

def enabled (c : Cluster) (s : MembershipService) : LocalEvent → Bool
  | .gossip target => target ∈ s.gossip_targets
  | .deliver d => d ∈ c.sent ∧ d.dst.on_wire = s.socket.on_wire
  | .tick => true

/-- Node `id` is now `r.1` and has sent `r.2`. -/
def update (c : Cluster) (id : NodeId) (r : MembershipService × List Datagram) : Cluster :=
  { c with service := Function.update c.service id (some r.1), sent := r.2 ++ c.sent }

@[simp] theorem update_service_self (c : Cluster) (id : NodeId) (r : MembershipService × List Datagram) :
    (c.update id r).service id = some r.1 := Function.update_self ..

theorem update_service_of_ne (c : Cluster) {id y : NodeId} (r : MembershipService × List Datagram) (h : y ≠ id) :
    (c.update id r).service y = c.service y := Function.update_of_ne h ..

def step (c : Cluster) : Event → Option Cluster
  | .start id bind_addr socket seed_nodes =>
    match c.service id with
    | some _ => none
    | none => some (c.update id (MembershipService.new id bind_addr socket seed_nodes c.now))
  | .node id e =>
    match c.service id with
    | some s => if c.enabled s e then some (c.update id (s.react c.now e)) else none
    | none => none
  | .elapse ms => some { c with now := c.now + ms }

def run (c : Cluster) : List Event → Option Cluster
  | [] => some c
  | e :: es => (c.step e).bind fun c' => c'.run es

def Reachable (c : Cluster) : Prop := ∃ es, init.run es = some c

/-- What node `y`'s view says about `x`. -/
def holds (c : Cluster) (y x : NodeId) : Option NodeState :=
  (c.service y).bind fun s => (s.get_member x).map Node.state

/-- Everything a step can do: a node starts, a running node reacts to an event
that is enabled for it, or time passes. -/
theorem step_cases {c c' : Cluster} {e : Event} (h : c.step e = some c') :
    (∃ id bind_addr socket seeds, e = .start id bind_addr socket seeds ∧ c.service id = none ∧
      c' = c.update id (MembershipService.new id bind_addr socket seeds c.now)) ∨
    (∃ id le s, e = .node id le ∧ c.service id = some s ∧ c.enabled s le = true ∧
      c' = c.update id (s.react c.now le)) ∨
    (∃ ms, e = .elapse ms ∧ c' = { c with now := c.now + ms }) := by
  cases e with
  | start id bind_addr socket seeds =>
    simp only [step] at h
    split at h
    · cases h
    · cases h
      exact .inl ⟨id, bind_addr, socket, seeds, rfl, ‹_›, rfl⟩
  | node id le =>
    simp only [step] at h
    split at h
    · split at h
      · cases h
        exact .inr (.inl ⟨id, le, _, rfl, ‹_›, ‹_›, rfl⟩)
      · cases h
    · cases h
  | elapse ms =>
    cases h
    exact .inr (.inr ⟨ms, rfl, rfl⟩)

/-- A property that holds at the start and that every step keeps holds after
every run; the run may be limited to some events. -/
theorem run_induction {P : Cluster → Prop} {ok : Event → Prop}
    (hstep : ∀ c e c', ok e → c.step e = some c' → P c → P c') {es : List Event} (hok : ∀ e ∈ es, ok e)
    {c c' : Cluster} (hc : P c) (h : c.run es = some c') : P c' := by
  induction es generalizing c with
  | nil =>
    cases h
    exact hc
  | cons e es ih =>
    obtain ⟨c₁, h₁, h₂⟩ := Option.bind_eq_some_iff.1 h
    exact ih (fun e' he' => hok e' (List.mem_cons_of_mem _ he'))
      (hstep c e c₁ (hok e List.mem_cons_self) h₁ hc) h₂

theorem reachable_induction {P : Cluster → Prop} (h0 : P init)
    (hstep : ∀ c e c', c.step e = some c' → P c → P c') {c : Cluster} (h : Reachable c) : P c := by
  obtain ⟨es, h⟩ := h
  exact run_induction (fun c e c' (_ : True) => hstep c e c') (fun _ _ => trivial) h0 h

end Cluster
