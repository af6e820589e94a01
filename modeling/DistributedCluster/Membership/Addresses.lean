import DistributedCluster.Membership.Refutation
import DistributedCluster.Membership.SelfView
/-!
# Where the nodes are

The address of a node comes into a view with its `Join`, from the datagram of a
`Ping`, or in the `Ack` of another, and is never corrected. What a node says of
itself is the address it was told to bind, what others see is where its datagrams
come from.
-/

/-- `ip.is_unspecified()` -/
def IpAddr.is_unspecified : IpAddr → Bool
  | .v4 bits => bits == 0
  | .v6 bits => bits == 0

/-- Datagrams of a socket bound to `bind_addr` can come from `socket`: a wildcard
stands for the address of some interface, port 0 for some free port. -/
structure Binds (bind_addr socket : SocketAddr) : Prop where
  ip : if bind_addr.ip.is_unspecified then socket.ip.is_unspecified = false else socket.ip = bind_addr.ip
  zone : bind_addr.ip.is_unspecified = false → socket.flowinfo = bind_addr.flowinfo ∧ socket.scope_id = bind_addr.scope_id
  port : if bind_addr.port = 0 then socket.port ≠ 0 else socket.port = bind_addr.port

namespace Binds

variable {bind_addr socket : SocketAddr} (h : Binds bind_addr socket)
include h

theorem concrete : socket.ip.is_unspecified = false ∧ socket.port ≠ 0 := by
  obtain ⟨hip, -, hport⟩ := h
  constructor
  · split at hip
    · exact hip
    · rename_i hspecified
      rw [hip]
      simpa using hspecified
  · split at hport
    · exact hport
    · rename_i hnonzero
      rwa [hport]

/-- What is serialized of the bind address is where the datagrams come from. -/
theorem on_wire_eq_iff : bind_addr.on_wire = socket ↔
    (bind_addr.ip.is_unspecified = false ∧ bind_addr.port ≠ 0) ∧ bind_addr.flowinfo = 0 ∧ bind_addr.scope_id = 0 := by
  constructor
  · rintro rfl
    obtain ⟨hip, hport⟩ := h.concrete
    simp only [SocketAddr.on_wire, SocketAddr.ip_new, SocketAddr.port_new] at hip hport
    obtain ⟨hflow, hscope⟩ := h.zone hip
    simp only [SocketAddr.on_wire, SocketAddr.flowinfo_new, SocketAddr.scope_id_new] at hflow hscope
    exact ⟨⟨hip, hport⟩, hflow.symm, hscope.symm⟩
  · rintro ⟨⟨hip, hport⟩, hwire⟩
    have hsame_ip := h.ip
    have hsame_port := h.port
    rw [if_neg (by simp [hip])] at hsame_ip
    rw [if_neg hport] at hsame_port
    rw [SocketAddr.on_wire_eq_iff.2 hwire]
    exact SocketAddr.eq_of_parts hsame_ip.symm hsame_port.symm (h.zone hip).1.symm (h.zone hip).2.symm

end Binds

namespace Cluster

open MembershipService

variable {c c' : Cluster} {x y : NodeId} {socket : SocketAddr} {s : MembershipService} {m : Node}

/-! ## Where an entry has its addresses from -/

theorem entry_source (h : FirstService s) {msg : GossipMessage} (hmsg : FirstMessage msg) {src : SocketAddr} {now : Instant}
    (hm : (s.handle_message msg src now).1.get_member x = some m) :
    (∃ m', s.get_member x = some m' ∧ m.gossip_addr = m'.gossip_addr ∧ m.http_addr = m'.http_addr) ∨
      ∃ node, Brings src x msg node ∧ m.gossip_addr = node.gossip_addr ∧ m.http_addr = node.http_addr := by
  cases hbefore : s.get_member x with
  | none =>
    obtain ⟨node, hbrings, rfl, -⟩ := new_entry h hmsg hbefore hm
    exact .inr ⟨node, hbrings, rfl, rfl⟩
  | some m' =>
    have hr := reaction h hmsg src now x
    rw [hm, hbefore] at hr
    cases hr with
    | kept => exact .inl ⟨m, rfl, rfl, rfl⟩
    | heard => exact .inl ⟨m', rfl, rfl, rfl⟩
    | joined _ node hjoin hid =>
      subst hjoin
      exact .inr ⟨node, .join hid, rfl, rfl⟩

/-- The addresses of a node whose datagrams come from `socket`. -/
def At (socket : SocketAddr) (m : Node) : Prop := m.gossip_addr = socket ∧ m.http_addr = http_of socket

theorem At.on_wire (hwire : socket.on_wire = socket) (h : At socket m) : At socket m.on_wire := by
  refine ⟨(congrArg SocketAddr.on_wire h.1).trans hwire, ?_⟩
  rw [Node.on_wire, h.2, http_of, SocketAddr.on_wire_new]

/-- All that is known and said about `x` has it at `socket`. -/
structure AtHome (x : NodeId) (socket : SocketAddr) (c : Cluster) : Prop where
  own : ∀ s, c.service x = some s → s.socket = socket
  entries : ∀ y s, c.service y = some s → ∀ m, s.get_member x = some m → At socket m
  sent : ∀ d ∈ c.sent, ∀ node, Brings d.src x d.msg node → At socket node

/-- What an event makes a node say about `x`: of itself where its datagrams come from,
of others what its view has. -/
theorem says_react (h : FirstService s) (now : Instant) {e : LocalEvent} (he : ∀ d, e = .deliver d → FirstMessage d.msg)
    {d : Datagram} (hd : d ∈ (s.react now e).2) {node : Node} (hbrings : Brings d.src x d.msg node) :
    x = s.local_id ∧ At s.socket node ∨ ∃ y m, (s.react now e).1.get_member y = some m ∧ m.id = x ∧ node = m.on_wire := by
  cases e with
  | gossip target =>
    obtain rfl := List.mem_singleton.1 hd
    cases hbrings
    exact .inl ⟨rfl, rfl, rfl⟩
  | tick =>
    obtain ⟨msg, hmsg, hd⟩ := List.mem_flatMap.1 hd
    obtain ⟨m, -, hsus⟩ := List.mem_filterMap.1 hmsg
    obtain ⟨target, -, rfl⟩ := List.mem_map.1 hd
    -- a suspicion says nothing about addresses
    unfold suspicion at hsus
    split at hsus
    · obtain rfl := Option.some.inj hsus
      cases hbrings
    · cases hsus
  | deliver d' =>
    have hfirst := he d' rfl
    obtain ⟨src, dst, msg⟩ := d'
    cases msg with
    | Ping sender i =>
      obtain rfl := List.mem_singleton.1 hd
      cases hbrings with
      | ack hmem hid =>
        obtain ⟨m, hm, rfl⟩ := List.mem_map.1 hmem
        obtain ⟨y, hy⟩ := mem_values.1 hm
        exact .inr ⟨y, m, hy, hid, rfl⟩
    | Ack sender i members => cases hd
    | Join node => cases hd
    | Suspect id i =>
      obtain rfl : i = 1 := hfirst
      simp only [react, handle_message, h.ignores_suspicion] at hd
      cases hd
    | Alive id i => cases hd

theorem detect_addresses (local_id : NodeId) (now : Instant) (m : Node) :
    (detect local_id now m).gossip_addr = m.gossip_addr ∧ (detect local_id now m).http_addr = m.http_addr := by
  unfold detect
  repeat' split
  all_goals exact ⟨rfl, rfl⟩

theorem entries_react (h : FirstService s) (now : Instant) {e : LocalEvent} (he : ∀ d, e = .deliver d → FirstMessage d.msg)
    (hat : ∀ m, s.get_member x = some m → At socket m)
    (hbrings : ∀ d, e = .deliver d → ∀ node, Brings d.src x d.msg node → At socket node) :
    ∀ m, (s.react now e).1.get_member x = some m → At socket m := by
  intro m hm
  cases e with
  | gossip target => exact hat m hm
  | tick =>
    obtain ⟨m', hm', rfl⟩ := Option.map_eq_some_iff.1 ((get_failure_detection s now x).symm.trans hm)
    obtain ⟨hgossip, hhttp⟩ := detect_addresses s.local_id now m'
    exact ⟨hgossip.trans (hat m' hm').1, hhttp.trans (hat m' hm').2⟩
  | deliver d =>
    rcases entry_source h (he d rfl) hm with ⟨m', hm', hgossip, hhttp⟩ | ⟨node, hnode, hgossip, hhttp⟩
    · exact ⟨hgossip.trans (hat m' hm').1, hhttp.trans (hat m' hm').2⟩
    · have hat' := hbrings d rfl node hnode
      exact ⟨hgossip.trans hat'.1, hhttp.trans hat'.2⟩

/-! ## A node that binds where it sends from -/

/-- What a node has to satisfy after a step of its own. -/
theorem AtHome.update (h : AtHome x socket c) {id : NodeId} {r : MembershipService × List Datagram}
    (hown : id = x → r.1.socket = socket) (hentries : ∀ m, r.1.get_member x = some m → At socket m)
    (hsent : ∀ d ∈ r.2, ∀ node, Brings d.src x d.msg node → At socket node) : AtHome x socket (c.update id r) := by
  refine ⟨fun s hs => ?_, fun y s hs => ?_, fun d hd => ?_⟩
  · by_cases hx : x = id
    · subst hx
      rw [update_service_self] at hs
      cases hs
      exact hown rfl
    · rw [update_service_of_ne c r hx] at hs
      exact h.own s hs
  · by_cases hy : y = id
    · subst hy
      rw [update_service_self] at hs
      cases hs
      exact hentries
    · rw [update_service_of_ne c r hy] at hs
      exact h.entries y s hs
  · rcases List.mem_append.1 hd with hd | hd
    · exact hsent d hd
    · exact h.sent d hd

theorem atHome_step (hwire : socket.on_wire = socket) {e : Event} (hstep : c.step e = some c') (hf : FirstIncarnation c) (hv : SelfView c)
    (he : ∀ b so seeds, e = .start x b so seeds → b = socket ∧ so = socket) (h : AtHome x socket c) : AtHome x socket c' := by
  have hv' := selfView_step hstep hf hv
  obtain ⟨id, b, so, seeds, rfl, -, rfl⟩ | ⟨id, le, s, rfl, hs, hen, rfl⟩ | ⟨ms, -, rfl⟩ := step_cases hstep
  · -- a node that starts knows itself only, and says so
    have hlocal : id = x → b = socket ∧ so = socket := by
      rintro rfl
      exact he b so seeds rfl
    refine h.update (fun hid => (hlocal hid).2) (fun m hm => ?_) fun d hd node hbrings => ?_
    · simp only [get_member, MembershipService.new, DashMap.lookup_insert_eq, AList.lookup_empty] at hm
      split at hm
      · rename_i hid
        obtain ⟨rfl, -⟩ := hlocal hid.symm
        cases hm
        exact ⟨rfl, rfl⟩
      · cases hm
    · obtain ⟨seed, -, rfl⟩ := List.mem_map.1 hd
      cases hbrings with
      | join hid =>
        obtain ⟨rfl, -⟩ := hlocal hid
        exact @At.on_wire b _ hwire ⟨rfl, rfl⟩
  · have hfirst : ∀ d, le = .deliver d → FirstMessage d.msg := fun d hd => hf.sent d (sent_of_enabled hen hd)
    have hentries := entries_react (hf.service id s hs) c.now hfirst (h.entries id s hs)
      fun d hd => h.sent d (sent_of_enabled hen hd)
    refine h.update (fun hid => ?_) hentries fun d hd node hbrings => ?_
    · subst hid
      exact (react_sameNode s c.now le).socket.trans (h.own s hs)
    · rcases says_react (hf.service id s hs) c.now hfirst hd hbrings with ⟨hx, hat⟩ | ⟨y, m, hm, hid, rfl⟩
      · obtain rfl : x = id := hx.trans (hv.local_id id s hs)
        exact h.own s hs ▸ hat
      · -- the view keeps `x` under its own id
        obtain rfl : x = y := hid.symm.trans (hv'.entries id _ (update_service_self ..) y m hm).1
        exact (hentries m hm).on_wire hwire
  · exact ⟨h.own, h.entries, h.sent⟩

theorem atHome_run (hwire : socket.on_wire = socket) {es : List Event} (hrun : init.run es = some c)
    (hes : ∀ b so seeds, .start x b so seeds ∈ es → b = socket ∧ so = socket) : AtHome x socket c := by
  have hinit : AtHome x socket init :=
    ⟨fun _ h => (nomatch h), fun _ _ h => (nomatch h), fun _ hd => absurd hd List.not_mem_nil⟩
  have hstep : ∀ c e c', e ∈ es → c.step e = some c' → FirstIncarnation c ∧ SelfView c ∧ AtHome x socket c →
      FirstIncarnation c' ∧ SelfView c' ∧ AtHome x socket c' := by
    rintro c e c' he hstep ⟨hf, hv, hhome⟩
    refine ⟨first_step hstep hf, selfView_step hstep hf hv, atHome_step hwire hstep hf hv ?_ hhome⟩
    rintro b so seeds rfl
    exact hes b so seeds he
  have hempty : Reachable init := ⟨[], rfl⟩
  exact (run_induction hstep (fun _ he => he) ⟨first_reachable hempty, selfView_reachable hempty, hinit⟩ hrun).2.2

/-- Every view but its own has `x` where its datagrams come from, and its HTTP server
1000 ports above; so any two of them agree. -/
structure Locates (c : Cluster) (x : NodeId) : Prop where
  found : ∀ y s m, y ≠ x → c.service y = some s → s.get_member x = some m →
    ∃ sx, c.service x = some sx ∧ m.gossip_addr = sx.socket ∧ m.http_addr.ip = sx.socket.ip ∧
      m.http_addr.port.toNat = sx.socket.port.toNat + 1000
  agree : ∀ y s m z s' m', y ≠ x → z ≠ x → c.service y = some s → s.get_member x = some m → c.service z = some s' →
    s'.get_member x = some m' → m.gossip_addr = m'.gossip_addr ∧ m.http_addr = m'.http_addr

theorem port_toNat {port : UInt16} : (port + 1000).toNat = port.toNat + 1000 ↔ port.toNat + 1000 < 65536 := by
  rw [UInt16.toNat_add]
  simp

theorem AtHome.locates (h : AtHome x socket c) (hv : SelfView c) (hport : socket.port.toNat + 1000 < 65536) : Locates c x := by
  refine ⟨fun y s m _ hs hm => ?_, fun y s m z s' m' _ _ hs hm hs' hm' => ?_⟩
  · obtain ⟨hgossip, hhttp⟩ := h.entries y s hs m hm
    obtain ⟨sx, hsx⟩ := (hv.entries y s hs x m hm).2
    have hown := h.own sx hsx
    simp only [hgossip, hhttp, http_of, SocketAddr.ip_new, SocketAddr.port_new]
    exact ⟨sx, hsx, hown.symm, by rw [hown], by rw [hown, port_toNat.2 hport]⟩
  · obtain ⟨hgossip, hhttp⟩ := h.entries y s hs m hm
    obtain ⟨hgossip', hhttp'⟩ := h.entries z s' hs' m' hm'
    exact ⟨hgossip.trans hgossip'.symm, hhttp.trans hhttp'.symm⟩

/-! ## What a node says of itself -/

/-- Every socket of the run is bound as it says, the one of `x` to these addresses. -/
structure Deploys (x : NodeId) (bind_addr socket : SocketAddr) (es : List Event) : Prop where
  bound : ∀ id b so seeds, .start id b so seeds ∈ es → Binds b so
  here : ∀ b so seeds, .start x b so seeds ∈ es → b = bind_addr ∧ so = socket

def seed_addr : SocketAddr := .V4 0x7f000001 5000

theorem binds_seed : Binds seed_addr seed_addr := ⟨by decide, by decide, by decide⟩

/-- The record of itself that `x` sends with its `Join`. -/
def self_declared (x : NodeId) (bind_addr : SocketAddr) : Node :=
  Node.on_wire ⟨x, bind_addr, http_of bind_addr, .Alive, 1, none⟩

/-- A seed node starts, `x` joins, and the seed node gets the `Join`. -/
def joining (y x : NodeId) (bind_addr socket : SocketAddr) : List Event :=
  [.start y seed_addr seed_addr [], .start x bind_addr socket [seed_addr],
    .node y (.deliver ⟨socket, seed_addr, .Join (self_declared x bind_addr)⟩)]

theorem run_joining {y : NodeId} (hne : y ≠ x) (bind_addr socket : SocketAddr) :
    ∃ c s sx, init.run (joining y x bind_addr socket) = some c ∧ c.service y = some s ∧
      s.get_member x = some { self_declared x bind_addr with last_seen := some 0 } ∧
      c.service x = some sx ∧ sx.socket = socket := by
  let s := (MembershipService.new y seed_addr seed_addr [] 0).1
  let c₁ := init.update y (MembershipService.new y seed_addr seed_addr [] 0)
  let c₂ := c₁.update x (MembershipService.new x bind_addr socket [seed_addr] 0)
  let join : Datagram := ⟨socket, seed_addr, .Join (self_declared x bind_addr)⟩
  have h₁ : init.step (.start y seed_addr seed_addr []) = some c₁ := rfl
  have h₂ : c₁.step (.start x bind_addr socket [seed_addr]) = some c₂ := by
    have hx : c₁.service x = none := update_service_of_ne init _ hne.symm
    simp only [step, hx]
    rfl
  have hs : c₂.service y = some s := by
    rw [update_service_of_ne c₁ _ hne, update_service_self]
  have hen : c₂.enabled s (.deliver join) = true := by
    refine decide_eq_true ⟨?_, rfl⟩
    exact List.mem_append_left _ (List.mem_singleton.2 rfl)
  have h₃ : c₂.step (.node y (.deliver join)) = some (c₂.update y (s.react 0 (.deliver join))) := by
    simp only [step, hs, hen, if_true]
    rfl
  refine ⟨c₂.update y (s.react 0 (.deliver join)), (s.react 0 (.deliver join)).1,
    (MembershipService.new x bind_addr socket [seed_addr] 0).1, ?_, update_service_self .., ?_, ?_, rfl⟩
  · simp only [joining, run, h₁, h₂, Option.bind_some]
    exact congrArg (Option.bind · some) h₃
  · exact (get_set_member ..).trans (if_pos rfl)
  · rw [update_service_of_ne c₂ _ hne.symm, update_service_self]

theorem exists_other (x : NodeId) : ∃ y : NodeId, y ≠ x := by
  by_cases h : x = ⟨"seed"⟩
  · exact ⟨⟨"other"⟩, by rw [h]; decide⟩
  · exact ⟨⟨"seed"⟩, Ne.symm h⟩

theorem deploys_joining {y : NodeId} (hne : y ≠ x) {bind_addr : SocketAddr} (h : Binds bind_addr socket) :
    Deploys x bind_addr socket (joining y x bind_addr socket) := by
  constructor
  · intro id b so seeds hstart
    simp only [joining, List.mem_cons, List.not_mem_nil, or_false, reduceCtorEq, Event.start.injEq] at hstart
    obtain ⟨-, rfl, rfl, -⟩ | ⟨-, rfl, rfl, -⟩ := hstart
    · exact binds_seed
    · exact h
  · intro b so seeds hstart
    simp only [joining, List.mem_cons, List.not_mem_nil, or_false, reduceCtorEq, Event.start.injEq] at hstart
    obtain ⟨rfl, -⟩ | ⟨-, rfl, rfl, -⟩ := hstart
    · exact absurd rfl hne
    · exact ⟨rfl, rfl⟩

/-- The views agree on where `x` is in every run exactly if `x` binds an address of its
own, a port of its own, the port of its HTTP server exists, and the address has no
more than is serialized of it. -/
theorem located_iff {bind_addr : SocketAddr} (h : Binds bind_addr socket) (x : NodeId) :
    (∀ es c, Deploys x bind_addr socket es → init.run es = some c → c.Locates x) ↔
      (bind_addr.ip.is_unspecified = false ∧ bind_addr.port ≠ 0) ∧ bind_addr.port.toNat + 1000 < 65536 ∧
        bind_addr.flowinfo = 0 ∧ bind_addr.scope_id = 0 := by
  constructor
  · intro hall
    obtain ⟨y, hne⟩ := exists_other x
    obtain ⟨c, s, sx, hrun, hs, hm, hsx, hsocket⟩ := run_joining hne bind_addr socket
    obtain ⟨sx', hsx', hgossip, -, hport⟩ := (hall _ c (deploys_joining hne h) hrun).found y s _ hne hs hm
    obtain rfl : sx = sx' := Option.some.inj (hsx.symm.trans hsx')
    -- `x` has told the seed node what it was told to bind
    have hsame : bind_addr.on_wire = socket := hgossip.trans hsocket
    obtain ⟨hconcrete, hzone⟩ := h.on_wire_eq_iff.1 hsame
    rw [hsocket, ← hsame] at hport
    simp only [self_declared, Node.on_wire, http_of, SocketAddr.on_wire, SocketAddr.ip_new, SocketAddr.port_new] at hport
    exact ⟨hconcrete, port_toNat.1 hport, hzone⟩
  · rintro ⟨hconcrete, hport, hzone⟩ es c hdeploys hrun
    have hwire : bind_addr.on_wire = bind_addr := SocketAddr.on_wire_eq_iff.2 hzone
    have hsame : bind_addr = socket := hwire.symm.trans (h.on_wire_eq_iff.2 ⟨hconcrete, hzone⟩)
    subst hsame
    exact (atHome_run hwire hrun hdeploys.here).locates (selfView_reachable ⟨es, hrun⟩) hport

section Machines

def machine1 : SocketAddr := .V4 0x0a000001 5000
def machine2 : SocketAddr := .V4 0x0a000002 5000

def joined_machine2 : Cluster := (init.run (joining ⟨"seed"⟩ ⟨"second"⟩ machine2 machine2)).get (by decide)

/-- Machine 2 binds the address it has. -/
theorem located_machine2 : joined_machine2.Locates ⟨"second"⟩ := by
  have hbinds : Binds machine2 machine2 := ⟨by decide, by decide, by decide⟩
  have hall := (located_iff hbinds ⟨"second"⟩).2 ⟨by decide, by decide, by decide⟩
  have hother : (⟨"seed"⟩ : NodeId) ≠ ⟨"second"⟩ := by decide
  exact hall _ _ (deploys_joining hother hbinds) (by simp [joined_machine2])

/-- `--bind 0.0.0.0:5000` -/
def any_addr : SocketAddr := .V4 0 5000

/-- Machine 1 is the seed node, machine 2 joins; both bind the wildcard. -/
def two_machines : List Event :=
  [.start ⟨"seed"⟩ any_addr machine1 [], .start ⟨"second"⟩ any_addr machine2 [machine1],
    .node ⟨"seed"⟩ (.deliver ⟨machine2, machine1, .Join (self_declared ⟨"second"⟩ any_addr)⟩)]

def wildcard_joined : Cluster := (init.run two_machines).get (by decide)

/-- The seed node has machine 2 at 0.0.0.0. -/
theorem not_located_wildcard :
    ¬ ∀ x bind_addr socket, Binds bind_addr socket → ∀ es c, Deploys x bind_addr socket es → init.run es = some c →
      c.Locates x := by
  intro hall
  have hdeploys : Deploys ⟨"second"⟩ any_addr machine2 two_machines := by
    constructor
    · intro id b so seeds hstart
      simp only [two_machines, List.mem_cons, List.not_mem_nil, or_false, reduceCtorEq, Event.start.injEq] at hstart
      obtain ⟨-, rfl, rfl, -⟩ | ⟨-, rfl, rfl, -⟩ := hstart
      · exact ⟨by decide, by decide, by decide⟩
      · exact ⟨by decide, by decide, by decide⟩
    · intro b so seeds hstart
      simp only [two_machines, List.mem_cons, List.not_mem_nil, or_false, reduceCtorEq, Event.start.injEq] at hstart
      obtain ⟨hid, -⟩ | ⟨-, rfl, rfl, -⟩ := hstart
      · exact absurd hid (by decide)
      · exact ⟨rfl, rfl⟩
  have hrun : init.run two_machines = some wildcard_joined := by simp [wildcard_joined]
  have hlocates := hall _ _ _ ⟨by decide, by decide, by decide⟩ _ _ hdeploys hrun
  have hknown : ((wildcard_joined.service ⟨"seed"⟩).bind fun s => (s.get_member ⟨"second"⟩).map Node.gossip_addr) =
      some any_addr := by decide
  have hsource : ((wildcard_joined.service ⟨"second"⟩).map fun s => s.socket) = some machine2 := by decide
  obtain ⟨s, hs, hm⟩ := Option.bind_eq_some_iff.1 hknown
  obtain ⟨m, hm, hgossip⟩ := Option.map_eq_some_iff.1 hm
  obtain ⟨sx, hsx, hfound, -⟩ := hlocates.found ⟨"seed"⟩ s m (by decide) hs hm
  rw [hsx, Option.map_some, Option.some.injEq] at hsource
  exact absurd (hgossip.symm.trans (hfound.trans hsource)) (by decide)

end Machines

end Cluster
