import DistributedCluster.Membership.Gossip
/-!
# No incarnation beyond the first

A node raises its counter only for a `Suspect` message that is strictly newer
than the entry the node has for itself, and a `Suspect` message carries the
incarnation of the entry it is about. So every incarnation that is ever stored
or sent is the one nodes start with, and what a message does to a view is
simple: it adds ids, it refreshes `last_seen`, or it is a `Join`.
-/

namespace Cluster

open MembershipService

def FirstMessage : GossipMessage → Prop
  | .Ping _ i => i = 1
  | .Ack _ i members => i = 1 ∧ ∀ m ∈ members, m.incarnation = 1
  | .Join node => node.incarnation = 1
  | .Suspect _ i => i = 1
  | .Alive _ _ => False

def FirstService (s : MembershipService) : Prop :=
  s.incarnation = 1 ∧ ∀ x m, s.get_member x = some m → m.incarnation = 1

structure FirstIncarnation (c : Cluster) : Prop where
  service : ∀ id s, c.service id = some s → FirstService s
  sent : ∀ d ∈ c.sent, FirstMessage d.msg

theorem FirstService.set_member {s : MembershipService} (h : FirstService s) {node_id : NodeId} {node : Node}
    (hn : node.incarnation = 1) : FirstService (s.set_member node_id node) := by
  refine ⟨h.1, fun x m hm => ?_⟩
  rw [get_set_member] at hm
  split at hm
  · cases hm
    exact hn
  · exact h.2 x m hm

theorem FirstService.merge_member {s : MembershipService} (h : FirstService s) (now : Instant) {node : Node}
    (hn : node.incarnation = 1) : FirstService (merge_member now s node) := by
  unfold MembershipService.merge_member
  split
  · split
    · exact h
    · split
      · exact h.set_member hn
      · exact h
  · split
    · exact h
    · exact h.set_member hn

theorem FirstService.merge_members {now : Instant} {members : List Node} (hm : ∀ m ∈ members, m.incarnation = 1)
    {s : MembershipService} (h : FirstService s) :
    FirstService (members.foldl (MembershipService.merge_member now) s) := by
  induction members generalizing s with
  | nil => exact h
  | cons m ms ih =>
    exact ih (fun m' hm' => hm m' (List.mem_cons_of_mem _ hm')) (h.merge_member now (hm m List.mem_cons_self))

/-- Nothing is newer than an entry of the first incarnation. -/
theorem FirstService.ignores_suspicion {s : MembershipService} (h : FirstService s) (x : NodeId) (now : Instant) :
    s.handle_suspect x 1 now = (s, []) := by
  unfold handle_suspect
  split
  · rename_i m hm
    split
    · rfl
    · rw [if_neg (show ¬ 1 > m.incarnation by rw [h.2 _ _ hm]; exact UInt64.lt_irrefl 1)]
  · rfl

theorem first_handle_message {s : MembershipService} (h : FirstService s) {msg : GossipMessage}
    (hmsg : FirstMessage msg) (src : SocketAddr) (now : Instant) :
    FirstService (s.handle_message msg src now).1 ∧
      ∀ d ∈ (s.handle_message msg src now).2, FirstMessage d.msg := by
  cases msg with
  | Ping sender i =>
    simp only [FirstMessage] at hmsg
    subst hmsg
    have hs : FirstService (s.handle_ping sender 1 src now).1 := by
      unfold handle_ping
      split
      · rename_i m hm
        have h1 := h.2 _ _ hm
        exact h.set_member (by simp [h1])
      · exact h.set_member rfl
    refine ⟨hs, fun d hd => ?_⟩
    obtain rfl := List.mem_singleton.1 hd
    refine ⟨hs.1, fun m hm => ?_⟩
    obtain ⟨m', hm', rfl⟩ := List.mem_map.1 hm
    obtain ⟨x, hx⟩ := mem_values.1 hm'
    exact hs.2 x m' hx
  | Ack sender i members =>
    refine ⟨?_, fun d hd => absurd hd List.not_mem_nil⟩
    simp only [handle_message, handle_ack]
    split
    · rename_i m hm
      split
      · exact h
      · have h1 := h.2 _ _ hm
        exact (h.set_member (by simp [h1, hmsg.1])).merge_members hmsg.2
    · exact h.merge_members hmsg.2
  | Join node => exact ⟨h.set_member hmsg, fun d hd => absurd hd List.not_mem_nil⟩
  | Suspect x i =>
    obtain rfl : i = 1 := hmsg
    rw [handle_message, h.ignores_suspicion]
    exact ⟨h, fun d hd => absurd hd List.not_mem_nil⟩
  | Alive x i => exact absurd hmsg id

/-- The answer to a ping. -/
theorem handle_ping_reply {s : MembershipService} {sender : NodeId} {i : UInt64} {src : SocketAddr} {now : Instant}
    (h : FirstService (s.handle_ping sender i src now).1) :
    (s.handle_ping sender i src now).2 = [(s.handle_ping sender i src now).1.send src
      (.Ack (s.handle_ping sender i src now).1.local_id 1 ((s.handle_ping sender i src now).1.members.values.map Node.on_wire))] := by
  rw [← h.1]
  rfl

theorem first_failure_detection {s : MembershipService} (h : FirstService s) (now : Instant) :
    FirstService (s.failure_detection now).1 ∧ ∀ d ∈ (s.failure_detection now).2, FirstMessage d.msg := by
  constructor
  · refine ⟨h.1, fun x m hm => ?_⟩
    obtain ⟨m', hm', rfl⟩ := Option.map_eq_some_iff.1 ((DashMap.lookup_mapValues _ s.members x).symm.trans hm)
    have h1 : m'.incarnation = 1 := h.2 x m' hm'
    unfold detect
    repeat' split
    all_goals exact h1
  · intro d hd
    obtain ⟨msg, hmsg, hd⟩ := List.mem_flatMap.1 hd
    obtain ⟨m, hm, hsus⟩ := List.mem_filterMap.1 hmsg
    obtain ⟨m', -, rfl⟩ := List.mem_map.1 hd
    obtain ⟨x, hx⟩ := mem_values.1 hm
    unfold suspicion at hsus
    split at hsus
    · cases hsus
      exact h.2 x m hx
    · cases hsus

theorem first_react {s : MembershipService} (h : FirstService s) (now : Instant) {e : LocalEvent}
    (he : ∀ d, e = .deliver d → FirstMessage d.msg) :
    FirstService (s.react now e).1 ∧ ∀ d ∈ (s.react now e).2, FirstMessage d.msg := by
  cases e with
  | gossip target =>
    refine ⟨h, fun d hd => ?_⟩
    obtain rfl := List.mem_singleton.1 hd
    exact h.1
  | deliver d => exact first_handle_message h (he d rfl) d.src now
  | tick => exact first_failure_detection h now

theorem first_new (id : NodeId) (bind_addr socket : SocketAddr) (seeds : List SocketAddr) (now : Instant) :
    FirstService (MembershipService.new id bind_addr socket seeds now).1 ∧
      ∀ d ∈ (MembershipService.new id bind_addr socket seeds now).2, FirstMessage d.msg := by
  constructor
  · refine ⟨rfl, fun x m hm => ?_⟩
    simp only [get_member, MembershipService.new, DashMap.lookup_insert_eq, AList.lookup_empty] at hm
    split at hm
    · cases hm
      rfl
    · cases hm
  · intro d hd
    obtain ⟨seed, -, rfl⟩ := List.mem_map.1 hd
    rfl

theorem FirstIncarnation.update {c : Cluster} (h : FirstIncarnation c) {id : NodeId}
    {r : MembershipService × List Datagram} (hr : FirstService r.1 ∧ ∀ d ∈ r.2, FirstMessage d.msg) :
    FirstIncarnation (c.update id r) := by
  refine ⟨fun id' s hs => ?_, fun d hd => ?_⟩
  · simp only [Cluster.update, Function.update_apply] at hs
    split at hs
    · cases hs
      exact hr.1
    · exact h.service id' s hs
  · exact (List.mem_append.1 hd).elim (hr.2 d) (h.sent d)

/-- A delivered datagram was sent. -/
theorem sent_of_enabled {c : Cluster} {s : MembershipService} {e : LocalEvent} (he : c.enabled s e = true)
    {d : Datagram} (h : e = .deliver d) : d ∈ c.sent := by
  subst h
  exact (of_decide_eq_true he).1

theorem first_step {c c' : Cluster} {e : Event} (hstep : c.step e = some c') (h : FirstIncarnation c) :
    FirstIncarnation c' := by
  obtain ⟨id, b, so, seeds, -, -, rfl⟩ | ⟨id, le, s, -, hs, hen, rfl⟩ | ⟨ms, -, rfl⟩ := step_cases hstep
  · exact h.update (first_new id b so seeds c.now)
  · exact h.update (first_react (h.service id s hs) c.now fun d hd => h.sent d (sent_of_enabled hen hd))
  · exact ⟨h.service, h.sent⟩

theorem first_reachable {c : Cluster} (h : Reachable c) : FirstIncarnation c :=
  reachable_induction ⟨fun _ _ h => (nomatch h), fun _ hd => absurd hd List.not_mem_nil⟩
    (fun _ _ _ hstep => first_step hstep) h

/-! ## What a message does to one id -/

/-- The ids a message says something about. -/
def ids_of : GossipMessage → List NodeId
  | .Ping sender _ => [sender]
  | .Ack sender _ members => sender :: members.map Node.id
  | .Join node => [node.id]
  | .Suspect node_id _ => [node_id]
  | .Alive node_id _ => [node_id]

/-- The entry of `x` before and after a message. -/
inductive Reaction (msg : GossipMessage) (now : Instant) (x : NodeId) : Option Node → Option Node → Prop
  | kept (e : Option Node) : Reaction msg now x e e
  | heard (m : Node) : Reaction msg now x (some m) (some { m with last_seen := some now })
  | learned (node : Node) (hid : node.id = x) (hstate : node.state ≠ .Dead) (hx : x ∈ ids_of msg) :
    Reaction msg now x none (some node)
  | joined (e : Option Node) (node : Node) (hmsg : msg = .Join node) (hid : node.id = x) :
    Reaction msg now x e (some { node with last_seen := some now })

/-- Merging members of the first incarnation adds ids and changes nothing else. -/
theorem merge_members_adds {now : Instant} {members : List Node} (hm : ∀ m ∈ members, m.incarnation = 1)
    {s : MembershipService} (h : FirstService s) (x : NodeId) :
    (members.foldl (MembershipService.merge_member now) s).get_member x = s.get_member x ∨
      s.get_member x = none ∧ ∃ node ∈ members, node.id = x ∧ node.state ≠ .Dead ∧
        (members.foldl (MembershipService.merge_member now) s).get_member x = some { node with last_seen := some now } := by
  induction members generalizing s with
  | nil => exact .inl rfl
  | cons m ms ih =>
    have h1 := hm m List.mem_cons_self
    have hrest : ∀ m' ∈ ms, m'.incarnation = 1 := fun m' hm' => hm m' (List.mem_cons_of_mem _ hm')
    have htail := ih hrest (h.merge_member now h1)
    rw [List.foldl_cons]
    by_cases hnew : s.get_member m.id = none ∧ m.state ≠ .Dead
    · have hstep : merge_member now s m = s.set_member m.id { m with last_seen := some now } := by
        rw [MembershipService.merge_member, hnew.1]
        exact if_neg hnew.2
      rw [hstep] at htail ⊢
      rw [get_set_member] at htail
      split at htail
      · rename_i hx
        rcases htail with htail | ⟨hnone, -⟩
        · exact .inr ⟨hx ▸ hnew.1, m, List.mem_cons_self, hx.symm, hnew.2, htail⟩
        · cases hnone
      · exact htail.imp_right fun ⟨hn, node, hmem, hnode⟩ => ⟨hn, node, List.mem_cons_of_mem _ hmem, hnode⟩
    · have hstep : merge_member now s m = s := by
        unfold MembershipService.merge_member
        split
        · rename_i e he
          rw [if_neg (show ¬ m.incarnation > e.incarnation by rw [h1, h.2 _ _ he]; exact UInt64.lt_irrefl 1), ite_self]
        · rename_i he
          exact if_pos (by_contra fun hd => hnew ⟨he, hd⟩)
      rw [hstep] at htail ⊢
      exact htail.imp_right fun ⟨hn, node, hmem, hnode⟩ => ⟨hn, node, List.mem_cons_of_mem _ hmem, hnode⟩

theorem reaction_ping {s : MembershipService} (h : FirstService s) (sender : NodeId) (src : SocketAddr) (now : Instant)
    (x : NodeId) : Reaction (.Ping sender 1) now x (s.get_member x) ((s.handle_ping sender 1 src now).1.get_member x) := by
  unfold handle_ping
  split
  · rename_i m hm
    rw [if_neg (show ¬ 1 > m.incarnation by rw [h.2 _ _ hm]; exact UInt64.lt_irrefl 1), get_set_member]
    split
    · rename_i hx
      rw [hx, hm]
      exact .heard m
    · exact .kept _
  · rename_i hm
    rw [get_set_member]
    split
    · rename_i hx
      rw [hx, hm]
      exact .learned _ rfl (fun hd => nomatch hd) List.mem_cons_self
    · exact .kept _

/-- What an entry becomes by the members of an `Ack`. -/
theorem reaction_merge {s : MembershipService} (h : FirstService s) {sender : NodeId} {i : UInt64} {members : List Node}
    (hmembers : ∀ m ∈ members, m.incarnation = 1) (now : Instant) (x : NodeId) :
    (members.foldl (merge_member now) s).get_member x = s.get_member x ∨ s.get_member x = none ∧
      Reaction (.Ack sender i members) now x none ((members.foldl (merge_member now) s).get_member x) := by
  rcases merge_members_adds hmembers h x with hsame | ⟨hnone, node, hmem, hid, hst, hnode⟩
  · exact .inl hsame
  · rw [hnode]
    exact .inr ⟨hnone, .learned _ hid hst (List.mem_cons_of_mem _ (List.mem_map.2 ⟨node, hmem, hid⟩))⟩

theorem reaction_ack {s : MembershipService} (h : FirstService s) (sender : NodeId) {members : List Node}
    (hmembers : ∀ m ∈ members, m.incarnation = 1) (now : Instant) (x : NodeId) :
    Reaction (.Ack sender 1 members) now x (s.get_member x) ((s.handle_ack sender 1 members now).get_member x) := by
  unfold handle_ack
  split
  · rename_i m hm
    split
    · exact .kept _
    · have h1 := h.2 _ _ hm
      rw [if_neg (show ¬ 1 > m.incarnation by rw [h1]; exact UInt64.lt_irrefl 1)]
      have hs : FirstService (s.set_member sender { m with last_seen := some now }) := h.set_member h1
      rcases reaction_merge hs hmembers now x with hsame | ⟨hnone, hlearned⟩
      · -- at most the sender has been heard
        rw [hsame, get_set_member]
        split
        · rename_i hx
          rw [hx, hm]
          exact .heard m
        · exact .kept _
      · rw [get_set_member] at hnone
        split at hnone
        · cases hnone
        · rw [hnone]
          exact hlearned
  · rcases reaction_merge h hmembers now x with hsame | ⟨hnone, hlearned⟩
    · rw [hsame]
      exact .kept _
    · rw [hnone]
      exact hlearned

theorem reaction {s : MembershipService} (h : FirstService s) {msg : GossipMessage} (hmsg : FirstMessage msg)
    (src : SocketAddr) (now : Instant) (x : NodeId) :
    Reaction msg now x (s.get_member x) ((s.handle_message msg src now).1.get_member x) := by
  cases msg with
  | Ping sender i =>
    obtain rfl : i = 1 := hmsg
    exact reaction_ping h sender src now x
  | Ack sender i members =>
    obtain ⟨rfl, hmembers⟩ := hmsg
    exact reaction_ack h sender hmembers now x
  | Join node =>
    simp only [handle_message, handle_join]
    rw [get_set_member]
    split
    · exact .joined _ node rfl (Eq.symm ‹_›)
    · exact .kept _
  | Suspect node_id i =>
    obtain rfl : i = 1 := hmsg
    rw [handle_message, h.ignores_suspicion]
    exact .kept _
  | Alive node_id i => exact absurd hmsg id

/-- The records of `x` that a message from `src` may bring. -/
inductive Brings (src : SocketAddr) (x : NodeId) : GossipMessage → Node → Prop
  | ping (incarnation : UInt64) : Brings src x (.Ping x incarnation)
    { id := x, gossip_addr := src, http_addr := http_of src, state := .Alive, incarnation, last_seen := none }
  | ack {sender incarnation members} {node : Node} (hmem : node ∈ members) (hid : node.id = x) :
    Brings src x (.Ack sender incarnation members) node
  | join {node : Node} (hid : node.id = x) : Brings src x (.Join node) node

theorem new_entry_ping {s : MembershipService} {sender : NodeId} {i : UInt64} {src : SocketAddr} {now : Instant}
    {x : NodeId} (hnone : s.get_member x = none) {m : Node} (hm : (s.handle_ping sender i src now).1.get_member x = some m) :
    ∃ node, Brings src x (.Ping sender i) node ∧ m = { node with last_seen := some now } ∧ m.state ≠ .Dead := by
  unfold handle_ping at hm
  split at hm
  · rw [get_set_member] at hm
    split at hm
    · rename_i hsender hx
      rw [← hx, hnone] at hsender
      cases hsender
    · rw [hnone] at hm
      cases hm
  · rw [get_set_member] at hm
    split at hm
    · rename_i hx
      cases hm
      subst hx
      exact ⟨_, .ping i, rfl, by simp⟩
    · rw [hnone] at hm
      cases hm

theorem new_entry_merge {s : MembershipService} (h : FirstService s) {sender : NodeId} {i : UInt64} {members : List Node}
    (hmembers : ∀ m ∈ members, m.incarnation = 1) {src : SocketAddr} {now : Instant} {x : NodeId}
    (hnone : s.get_member x = none) {m : Node} (hm : (members.foldl (merge_member now) s).get_member x = some m) :
    ∃ node, Brings src x (.Ack sender i members) node ∧ m = { node with last_seen := some now } ∧ m.state ≠ .Dead := by
  rcases merge_members_adds hmembers h x with hsame | ⟨-, node, hmem, hid, hst, hnode⟩
  · rw [hsame, hnone] at hm
    cases hm
  · rw [hnode] at hm
    cases hm
    exact ⟨node, .ack hmem hid, rfl, hst⟩

theorem new_entry_ack {s : MembershipService} (h : FirstService s) {sender : NodeId} {members : List Node}
    (hmembers : ∀ m ∈ members, m.incarnation = 1) {src : SocketAddr} {now : Instant} {x : NodeId}
    (hnone : s.get_member x = none) {m : Node} (hm : (s.handle_ack sender 1 members now).get_member x = some m) :
    ∃ node, Brings src x (.Ack sender 1 members) node ∧ m = { node with last_seen := some now } ∧ m.state ≠ .Dead := by
  unfold handle_ack at hm
  split at hm
  · rename_i member hsender
    split at hm
    · rw [hnone] at hm
      cases hm
    · -- what the sender's own entry becomes is not about `x`
      have hne : x ≠ sender := by
        rintro rfl
        rw [hnone] at hsender
        cases hsender
      have h1 := h.2 _ _ hsender
      exact new_entry_merge (h.set_member (by simp [h1])) hmembers (by rw [get_set_member, if_neg hne, hnone]) hm
  · exact new_entry_merge h hmembers hnone hm

/-- A new entry is one of those, seen now; it is `Dead` at most if a `Join` says so. -/
theorem new_entry {s : MembershipService} (h : FirstService s) {msg : GossipMessage} (hmsg : FirstMessage msg) {src : SocketAddr}
    {now : Instant} {x : NodeId} (hnone : s.get_member x = none) {m : Node}
    (hm : (s.handle_message msg src now).1.get_member x = some m) :
    ∃ node, Brings src x msg node ∧ m = { node with last_seen := some now } ∧ ((∀ node, msg ≠ .Join node) → m.state ≠ .Dead) := by
  cases msg with
  | Ping sender i =>
    obtain ⟨node, hbrings, heq, hst⟩ := new_entry_ping hnone hm
    exact ⟨node, hbrings, heq, fun _ => hst⟩
  | Ack sender i members =>
    obtain ⟨rfl, hmembers⟩ := hmsg
    obtain ⟨node, hbrings, heq, hst⟩ := new_entry_ack h hmembers hnone hm
    exact ⟨node, hbrings, heq, fun _ => hst⟩
  | Join node =>
    simp only [handle_message, handle_join] at hm
    rw [get_set_member] at hm
    split at hm
    · rename_i hx
      cases hm
      exact ⟨node, .join hx.symm, rfl, fun h => absurd rfl (h node)⟩
    · rw [hnone] at hm
      cases hm
  | Suspect node_id i =>
    obtain rfl : i = 1 := hmsg
    rw [handle_message, h.ignores_suspicion, hnone] at hm
    cases hm
  | Alive node_id i => exact absurd hmsg id

end Cluster
