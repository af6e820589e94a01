import DistributedCluster.Membership.Incarnations
import DistributedCluster.Storage.Partitioner
/-!
# What a node knows about itself

A running node holds itself `Alive` with the incarnation its counter has, and
no view and no message gives a node an incarnation the node has not reached.
So a node's list of alive members has at least the node itself, and every
partition has an owner.
-/

theorem PartitionManager.get_owners_ne_nil (pm : PartitionManager) {membership : MembershipService}
    (h : membership.get_alive_members ≠ []) (partition : Nat) : pm.get_owners membership partition ≠ [] := by
  have hlen : 0 < (PartitionManager.sorted_ids membership.get_alive_members).length := by
    rw [PartitionManager.sorted_ids, List.length_insertionSort, List.length_map]
    exact List.length_pos_of_ne_nil h
  rw [get_owners, owners_among, dif_pos hlen, ne_eq, List.map_eq_nil_iff, List.range_eq_nil]
  have := pm.replication_factor_pos
  omega

namespace Cluster

open MembershipService

def Started (c : Cluster) (x : NodeId) : Prop := ∃ s, c.service x = some s

structure SelfView (c : Cluster) : Prop where
  local_id : ∀ id s, c.service id = some s → s.local_id = id
  own : ∀ id s, c.service id = some s → ∃ m, s.get_member id = some m ∧ m.state = .Alive
  entries : ∀ id s, c.service id = some s → ∀ x m, s.get_member x = some m → m.id = x ∧ Started c x
  sent : ∀ d ∈ c.sent, ∀ x ∈ ids_of d.msg, Started c x
  joins : ∀ d ∈ c.sent, ∀ node, d.msg = .Join node → node.state = .Alive

/-! ## What an event does to a service -/

/-- The service is still the same node's, at the same socket. -/
structure SameNode (s s' : MembershipService) : Prop where
  local_node : s'.local_node = s.local_node
  socket : s'.socket = s.socket

theorem SameNode.local_id {s s' : MembershipService} (h : SameNode s s') : s'.local_id = s.local_id :=
  congrArg Node.id h.local_node

theorem merge_member_sameNode (now : Instant) (s : MembershipService) (m : Node) : SameNode s (merge_member now s m) := by
  unfold MembershipService.merge_member
  repeat' split
  all_goals exact ⟨rfl, rfl⟩

theorem merge_members_sameNode (now : Instant) (members : List Node) (s : MembershipService) :
    SameNode s (members.foldl (merge_member now) s) := by
  induction members generalizing s with
  | nil => exact ⟨rfl, rfl⟩
  | cons m ms ih =>
    have hfirst := merge_member_sameNode now s m
    have hrest := ih (merge_member now s m)
    exact ⟨hrest.local_node.trans hfirst.local_node, hrest.socket.trans hfirst.socket⟩

theorem handle_message_sameNode (s : MembershipService) (msg : GossipMessage) (src : SocketAddr) (now : Instant) :
    SameNode s (s.handle_message msg src now).1 := by
  cases msg with
  | Ping sender i =>
    dsimp only [handle_message, handle_ping]
    split <;> exact ⟨rfl, rfl⟩
  | Ack sender i members =>
    dsimp only [handle_message, handle_ack]
    split
    · split
      · exact ⟨rfl, rfl⟩
      · obtain ⟨hnode, hsocket⟩ := merge_members_sameNode now members (s.set_member sender _)
        exact ⟨hnode, hsocket⟩
    · exact merge_members_sameNode now members s
  | Join => exact ⟨rfl, rfl⟩
  | Suspect x i =>
    dsimp only [handle_message, handle_suspect]
    repeat' split
    all_goals exact ⟨rfl, rfl⟩
  | Alive x i =>
    dsimp only [handle_message, handle_alive]
    repeat' split
    all_goals exact ⟨rfl, rfl⟩

theorem react_sameNode (s : MembershipService) (now : Instant) (e : LocalEvent) : SameNode s (s.react now e).1 := by
  cases e with
  | gossip => exact ⟨rfl, rfl⟩
  | tick => exact ⟨rfl, rfl⟩
  | deliver d => exact handle_message_sameNode s d.msg d.src now

theorem detect_id (local_id : NodeId) (now : Instant) (m : Node) : (detect local_id now m).id = m.id := by
  unfold detect
  repeat' split
  all_goals rfl

theorem get_failure_detection (s : MembershipService) (now : Instant) (x : NodeId) :
    (s.failure_detection now).1.get_member x = (s.get_member x).map (detect s.local_id now) :=
  DashMap.lookup_mapValues _ s.members x

/-- Every entry after an event was there before, with the id it has now, or its
id is in the message delivered. -/
theorem react_entries {s : MembershipService} (h : FirstService s) (now : Instant) {e : LocalEvent}
    (he : ∀ d, e = .deliver d → FirstMessage d.msg) {x : NodeId} {m : Node}
    (hm : (s.react now e).1.get_member x = some m) :
    (∃ m', s.get_member x = some m' ∧ m.id = m'.id) ∨ m.id = x ∧ ∃ d, e = .deliver d ∧ x ∈ ids_of d.msg := by
  cases e with
  | gossip target => exact .inl ⟨m, hm, rfl⟩
  | tick =>
    obtain ⟨m', hm', rfl⟩ := Option.map_eq_some_iff.1 ((get_failure_detection s now x).symm.trans hm)
    exact .inl ⟨m', hm', detect_id ..⟩
  | deliver d =>
    have hr := reaction h (he d rfl) d.src now x
    rw [show (s.handle_message d.msg d.src now).1.get_member x = some m from hm] at hr
    generalize hbefore : s.get_member x = before at hr
    cases hr with
    | kept => exact .inl ⟨m, rfl, rfl⟩
    | heard m' => exact .inl ⟨m', rfl, rfl⟩
    | learned _ hid _ hx => exact .inr ⟨hid, d, rfl, hx⟩
    | joined _ node hmsg hid =>
      refine .inr ⟨hid, d, rfl, ?_⟩
      rw [hmsg, ← hid]
      exact List.mem_cons_self

/-- The messages `r.2` are no `Join`s and are about node `id` and the ids in the
view `r.1`. -/
def Speaks (id : NodeId) (r : MembershipService × List Datagram) : Prop :=
  ∀ d ∈ r.2, (∀ x ∈ ids_of d.msg, x = id ∨ ∃ y m, r.1.get_member y = some m ∧ m.id = x) ∧ ∀ node, d.msg ≠ .Join node

theorem speaks_handle_message {s : MembershipService} (h : FirstService s) {msg : GossipMessage}
    (hmsg : FirstMessage msg) (src : SocketAddr) (now : Instant) :
    Speaks s.local_id (s.handle_message msg src now) := by
  intro d hd
  cases msg with
  | Ping sender i =>
    obtain rfl := List.mem_singleton.1 hd
    refine ⟨fun x hx => ?_, fun node hj => nomatch hj⟩
    rcases List.mem_cons.1 hx with rfl | hx
    · exact .inl ((handle_message_sameNode s (.Ping sender i) src now).local_id)
    · obtain ⟨m', hm', rfl⟩ := List.mem_map.1 hx
      obtain ⟨m, hm, rfl⟩ := List.mem_map.1 hm'
      obtain ⟨y, hy⟩ := mem_values.1 hm
      exact .inr ⟨y, m, hy, rfl⟩
  | Ack sender i members => cases hd
  | Join node => cases hd
  | Suspect x i =>
    obtain rfl : i = 1 := hmsg
    rw [handle_message, h.ignores_suspicion] at hd
    cases hd
  | Alive x i => cases hd

theorem speaks_failure_detection (s : MembershipService) (now : Instant) :
    Speaks s.local_id (s.failure_detection now) := by
  intro d hd
  obtain ⟨msg, hmsg, hd⟩ := List.mem_flatMap.1 hd
  obtain ⟨m, hm, hsus⟩ := List.mem_filterMap.1 hmsg
  obtain ⟨-, -, rfl⟩ := List.mem_map.1 hd
  obtain ⟨y, hy⟩ := mem_values.1 hm
  unfold suspicion at hsus
  split at hsus
  · cases hsus
    refine ⟨fun x hx => .inr ⟨y, _, (get_failure_detection s now y).trans (congrArg _ hy), ?_⟩,
      fun node hj => nomatch hj⟩
    rw [detect_id]
    exact (List.mem_singleton.1 hx).symm
  · cases hsus

theorem speaks_react {s : MembershipService} (h : FirstService s) (now : Instant) {e : LocalEvent}
    (he : ∀ d, e = .deliver d → FirstMessage d.msg) : Speaks s.local_id (s.react now e) := by
  cases e with
  | gossip target =>
    intro d hd
    obtain rfl := List.mem_singleton.1 hd
    exact ⟨fun x hx => .inl (List.mem_singleton.1 hx), fun node hj => nomatch hj⟩
  | deliver d => exact speaks_handle_message h (he d rfl) d.src now
  | tick => exact speaks_failure_detection s now

/-- No event but a `Join` of its own id changes what a node says of itself. -/
theorem react_own {s : MembershipService} (h : FirstService s) (now : Instant) {e : LocalEvent}
    (he : ∀ d, e = .deliver d → FirstMessage d.msg)
    (hj : ∀ d node, e = .deliver d → d.msg = .Join node → node.state = .Alive)
    (hown : ∃ m, s.get_member s.local_id = some m ∧ m.id = s.local_id ∧ m.state = .Alive) :
    ∃ m, (s.react now e).1.get_member s.local_id = some m ∧ m.state = .Alive := by
  obtain ⟨m, hm, hid, hst⟩ := hown
  cases e with
  | gossip target => exact ⟨m, hm, hst⟩
  | tick =>
    refine ⟨m, ((get_failure_detection s now s.local_id).trans (congrArg _ hm)).trans ?_, hst⟩
    rw [Option.map_some, detect, if_pos (.inl hid)]
  | deliver d =>
    have hr := reaction h (he d rfl) d.src now s.local_id
    rw [hm] at hr
    unfold react
    generalize (s.handle_message d.msg d.src now).1.get_member s.local_id = after at hr
    cases hr with
    | kept => exact ⟨m, rfl, hst⟩
    | heard => exact ⟨_, rfl, hst⟩
    | joined _ node hmsg _ => exact ⟨_, rfl, hj d node rfl hmsg⟩

/-! ## Every reachable state -/

theorem Started.update {c : Cluster} {x : NodeId} (h : Started c x) (id : NodeId)
    (r : MembershipService × List Datagram) : Started (c.update id r) x := by
  by_cases hx : x = id
  · subst hx
    exact ⟨r.1, update_service_self ..⟩
  · obtain ⟨s, hs⟩ := h
    exact ⟨s, by rw [update_service_of_ne c r hx, hs]⟩

/-- What a node has to satisfy after a step of its own. -/
theorem SelfView.update {c : Cluster} (h : SelfView c) {id : NodeId} {r : MembershipService × List Datagram}
    (hlocal : r.1.local_id = id) (hown : ∃ m, r.1.get_member id = some m ∧ m.state = .Alive)
    (hentries : ∀ x m, r.1.get_member x = some m → m.id = x ∧ (x = id ∨ Started c x))
    (hsent : ∀ d ∈ r.2, ∀ x ∈ ids_of d.msg, x = id ∨ Started c x)
    (hjoins : ∀ d ∈ r.2, ∀ node, d.msg = .Join node → node.state = .Alive) : SelfView (c.update id r) := by
  have started : ∀ {x}, x = id ∨ Started c x → Started (c.update id r) x := by
    rintro x (rfl | hx)
    · exact ⟨r.1, update_service_self ..⟩
    · exact hx.update id r
  have split_service : ∀ {y s}, (c.update id r).service y = some s → y = id ∧ s = r.1 ∨ c.service y = some s := by
    intro y s hs
    by_cases hy : y = id
    · subst hy
      rw [update_service_self] at hs
      exact .inl ⟨rfl, (Option.some.inj hs).symm⟩
    · exact .inr (by rwa [update_service_of_ne c r hy] at hs)
  constructor
  · intro y s hs
    rcases split_service hs with ⟨rfl, rfl⟩ | hs
    · exact hlocal
    · exact h.local_id y s hs
  · intro y s hs
    rcases split_service hs with ⟨rfl, rfl⟩ | hs
    · exact hown
    · exact h.own y s hs
  · intro y s hs x m hm
    rcases split_service hs with ⟨rfl, rfl⟩ | hs
    · exact (hentries x m hm).imp_right started
    · exact (h.entries y s hs x m hm).imp_right fun hx => hx.update id r
  · intro d hd x hx
    rcases List.mem_append.1 hd with hd | hd
    · exact started (hsent d hd x hx)
    · exact (h.sent d hd x hx).update id r
  · intro d hd
    rcases List.mem_append.1 hd with hd | hd
    · exact hjoins d hd
    · exact h.joins d hd

theorem selfView_start {c : Cluster} (h : SelfView c) (id : NodeId) (bind_addr socket : SocketAddr)
    (seeds : List SocketAddr) : SelfView (c.update id (MembershipService.new id bind_addr socket seeds c.now)) := by
  refine h.update rfl ?_ ?_ ?_ ?_
  · exact ⟨_, DashMap.lookup_insert_eq .. |>.trans (if_pos rfl), rfl⟩
  · intro x m hm
    simp only [get_member, MembershipService.new, DashMap.lookup_insert_eq, AList.lookup_empty] at hm
    split at hm
    · rename_i hx
      cases hm
      exact ⟨hx.symm, .inl hx⟩
    · cases hm
  · intro d hd x hx
    obtain ⟨seed, -, rfl⟩ := List.mem_map.1 hd
    exact .inl (List.mem_singleton.1 hx)
  · intro d hd node hj
    obtain ⟨seed, -, rfl⟩ := List.mem_map.1 hd
    cases hj
    rfl

theorem selfView_react {c : Cluster} (h : SelfView c) (hf : FirstIncarnation c) {id : NodeId}
    {s : MembershipService} (hs : c.service id = some s) {e : LocalEvent} (hen : c.enabled s e = true) :
    SelfView (c.update id (s.react c.now e)) := by
  have hid := h.local_id id s hs
  have hfirst : ∀ d, e = .deliver d → FirstMessage d.msg := fun d hd => hf.sent d (sent_of_enabled hen hd)
  have hspeaks := speaks_react (hf.service id s hs) c.now hfirst
  have hentries : ∀ x m, (s.react c.now e).1.get_member x = some m → m.id = x ∧ (x = id ∨ Started c x) := by
    intro x m hm
    rcases react_entries (hf.service id s hs) c.now hfirst hm with ⟨m', hm', hid'⟩ | ⟨hx, d, hd, hmem⟩
    · obtain ⟨hx, hst⟩ := h.entries id s hs x m' hm'
      exact ⟨hid'.trans hx, .inr hst⟩
    · exact ⟨hx, .inr (h.sent d (sent_of_enabled hen hd) x hmem)⟩
  refine h.update ((react_sameNode s c.now e).local_id.trans hid) ?_ hentries ?_ ?_
  · obtain ⟨m, hm, hst⟩ := h.own id s hs
    have hown := react_own (hf.service id s hs) c.now hfirst
      (fun d node hd hj => h.joins d (sent_of_enabled hen hd) node hj)
      ⟨m, hid.symm ▸ hm, hid.symm ▸ (h.entries id s hs id m hm).1, hst⟩
    rwa [hid] at hown
  · intro d hd x hx
    rcases (hspeaks d hd).1 x hx with rfl | ⟨y, m, hm, rfl⟩
    · exact .inl hid
    · obtain ⟨rfl, hst⟩ := hentries y m hm
      exact hst
  · exact fun d hd node hj => absurd hj ((hspeaks d hd).2 node)

theorem selfView_step {c c' : Cluster} {e : Event} (hstep : c.step e = some c') (hf : FirstIncarnation c)
    (h : SelfView c) : SelfView c' := by
  obtain ⟨id, b, so, seeds, -, -, rfl⟩ | ⟨id, le, s, -, hs, hen, rfl⟩ | ⟨ms, -, rfl⟩ := step_cases hstep
  · exact selfView_start h id b so seeds
  · exact selfView_react h hf hs hen
  · exact ⟨h.local_id, h.own, h.entries, h.sent, h.joins⟩

theorem selfView_reachable {c : Cluster} (h : Reachable c) : SelfView c := by
  have h0 : SelfView init :=
    ⟨fun _ _ h => (nomatch h), fun _ _ h => (nomatch h), fun _ _ h => (nomatch h),
      fun _ hd => absurd hd List.not_mem_nil, fun _ hd => absurd hd List.not_mem_nil⟩
  exact (reachable_induction (P := fun c => FirstIncarnation c ∧ SelfView c)
    ⟨⟨fun _ _ h => (nomatch h), fun _ hd => absurd hd List.not_mem_nil⟩, h0⟩
    (fun _ _ _ hstep hc => ⟨first_step hstep hc.1, selfView_step hstep hc.1 hc.2⟩) h).2

/-! ## Incarnations and owners -/

/-- The incarnations a message gives to nodes. -/
def attributions : GossipMessage → List (NodeId × UInt64)
  | .Ping sender incarnation => [(sender, incarnation)]
  | .Ack sender incarnation members => (sender, incarnation) :: members.map fun m => (m.id, m.incarnation)
  | .Join node => [(node.id, node.incarnation)]
  | .Suspect node_id incarnation => [(node_id, incarnation)]
  | .Alive node_id incarnation => [(node_id, incarnation)]

/-- An entry of some view or a message on its way gives `x` the incarnation `i`. -/
def Attributed (c : Cluster) (x : NodeId) (i : UInt64) : Prop :=
  (∃ id s y m, c.service id = some s ∧ s.get_member y = some m ∧ (x = y ∨ x = m.id) ∧ i = m.incarnation) ∨
    ∃ d ∈ c.sent, (x, i) ∈ attributions d.msg

theorem mem_attributions {msg : GossipMessage} (h : FirstMessage msg) {x : NodeId} {i : UInt64}
    (hx : (x, i) ∈ attributions msg) : x ∈ ids_of msg ∧ i = 1 := by
  cases msg with
  | Ping sender j =>
    obtain ⟨rfl, rfl⟩ := Prod.mk.inj (List.mem_singleton.1 hx)
    exact ⟨List.mem_cons_self, h⟩
  | Ack sender j members =>
    rcases List.mem_cons.1 hx with hx | hx
    · obtain ⟨rfl, rfl⟩ := Prod.mk.inj hx
      exact ⟨List.mem_cons_self, h.1⟩
    · obtain ⟨m, hm, hxm⟩ := List.mem_map.1 hx
      obtain ⟨rfl, rfl⟩ := Prod.mk.inj hxm
      exact ⟨List.mem_cons_of_mem _ (List.mem_map_of_mem hm), h.2 m hm⟩
  | Join node =>
    obtain ⟨rfl, rfl⟩ := Prod.mk.inj (List.mem_singleton.1 hx)
    exact ⟨List.mem_cons_self, h⟩
  | Suspect y j =>
    obtain ⟨rfl, rfl⟩ := Prod.mk.inj (List.mem_singleton.1 hx)
    exact ⟨List.mem_cons_self, h⟩
  | Alive y j => exact absurd h id

theorem attributed_started {c : Cluster} (hf : FirstIncarnation c) (h : SelfView c) {x : NodeId} {i : UInt64}
    (hx : Attributed c x i) : Started c x ∧ i = 1 := by
  rcases hx with ⟨id, s, y, m, hs, hm, hx, rfl⟩ | ⟨d, hd, hx⟩
  · obtain ⟨hid, hst⟩ := h.entries id s hs y m hm
    have hxy : x = y := hx.elim (fun hx => hx) fun hx => hx.trans hid
    exact ⟨hxy ▸ hst, (hf.service id s hs).2 y m hm⟩
  · obtain ⟨hmem, hi⟩ := mem_attributions (hf.sent d hd) hx
    exact ⟨h.sent d hd x hmem, hi⟩

theorem own_entry {c : Cluster} (h : Reachable c) {id : NodeId} {s : MembershipService} (hs : c.service id = some s) :
    ∃ m, s.get_member s.local_id = some m ∧ m.id = s.local_id ∧ m.state = .Alive ∧ m.incarnation = s.incarnation := by
  have hv := selfView_reachable h
  obtain ⟨m, hm, hst⟩ := hv.own id s hs
  obtain ⟨hfirst, hentry⟩ := (first_reachable h).service id s hs
  rw [hv.local_id id s hs]
  exact ⟨m, hm, (hv.entries id s hs id m hm).1, hst, (hentry id m hm).trans hfirst.symm⟩

/-- In a reachable state, a running node holds itself alive with its counter's
incarnation, no node is given an incarnation above its counter, and no running
node finds a partition without owner. -/
theorem self_view {c : Cluster} (h : Reachable c) :
    (∀ id s, c.service id = some s →
      ∃ m, s.get_member s.local_id = some m ∧ m.id = s.local_id ∧ m.state = .Alive ∧ m.incarnation = s.incarnation) ∧
    (∀ x i, Attributed c x i → ∃ s, c.service x = some s ∧ i ≤ s.incarnation) ∧
    ∀ (pm : PartitionManager) id s, c.service id = some s → ∀ partition, pm.get_owners s partition ≠ [] := by
  have hf := first_reachable h
  have hv := selfView_reachable h
  refine ⟨fun id s hs => own_entry h hs, fun x i hx => ?_, fun pm id s hs partition => ?_⟩
  · obtain ⟨⟨s, hs⟩, rfl⟩ := attributed_started hf hv hx
    exact ⟨s, hs, UInt64.le_of_eq (hf.service x s hs).1.symm⟩
  · obtain ⟨m, hm, -, hst, -⟩ := own_entry h hs
    refine pm.get_owners_ne_nil (List.ne_nil_of_mem (a := m) ?_) partition
    exact List.mem_filter.2 ⟨mem_values.2 ⟨_, hm⟩, by simp [hst]⟩

section Met

def first_addr : SocketAddr := .V4 0x7f000001 5000
def second_addr : SocketAddr := .V4 0x7f000001 5001

/-- What a node says of itself with its `Join`. -/
def newborn (id : NodeId) (addr : SocketAddr) : Node := ⟨id, addr, http_of addr, .Alive, 1, none⟩

/-- The second node joins at the first one and is pinged by it. -/
def greeting : List Event :=
  [.start ⟨"first"⟩ first_addr first_addr [], .start ⟨"second"⟩ second_addr second_addr [first_addr],
    .node ⟨"first"⟩ (.deliver ⟨second_addr, first_addr, .Join (newborn ⟨"second"⟩ second_addr)⟩),
    .node ⟨"first"⟩ (.gossip { newborn ⟨"second"⟩ second_addr with last_seen := some 0 }),
    .node ⟨"second"⟩ (.deliver ⟨first_addr, second_addr, .Ping ⟨"first"⟩ 1⟩)]

/-- The answer lists both nodes. -/
def greeted : Datagram :=
  ⟨second_addr, first_addr, .Ack ⟨"second"⟩ 1 [newborn ⟨"first"⟩ first_addr, newborn ⟨"second"⟩ second_addr]⟩

/-- The first node has got it. -/
def met : Cluster := (init.run (greeting ++ [.node ⟨"first"⟩ (.deliver greeted)])).get (by decide)

theorem met_reachable : Reachable met := ⟨greeting ++ [.node ⟨"first"⟩ (.deliver greeted)], by simp [met]⟩

/-- After a `Join` and an `Ack`: both nodes hold themselves alive, the `Ack` says no
more of the first one than is true, and partitions have owners for the second one. -/
theorem self_view_met :
    (∀ id ∈ [(⟨"first"⟩ : NodeId), ⟨"second"⟩], ∃ s m, met.service id = some s ∧ s.get_member s.local_id = some m ∧
      m.state = .Alive ∧ m.incarnation = s.incarnation) ∧
    (greeted ∈ met.sent ∧ ∃ s, met.service ⟨"first"⟩ = some s ∧ 1 ≤ s.incarnation) ∧
    ∃ s, met.service ⟨"second"⟩ = some s ∧ PartitionManager.new.get_owners s 7 ≠ [] := by
  obtain ⟨hown, hattributed, howners⟩ := self_view met_reachable
  have hsent : greeted ∈ met.sent := by decide
  obtain ⟨s, hs⟩ : ∃ s, met.service ⟨"second"⟩ = some s := ⟨_, rfl⟩
  refine ⟨fun id hid => ?_, ⟨hsent, ?_⟩, s, hs, howners .new _ s hs 7⟩
  · have hstarted : (met.service id).isSome := by
      revert id
      decide
    obtain ⟨s, hs⟩ := Option.isSome_iff_exists.1 hstarted
    obtain ⟨m, hm, -, hst, hi⟩ := hown id s hs
    exact ⟨s, m, hs, hm, hst, hi⟩
  · exact hattributed ⟨"first"⟩ 1 (.inr ⟨greeted, hsent, by decide⟩)

end Met

end Cluster
