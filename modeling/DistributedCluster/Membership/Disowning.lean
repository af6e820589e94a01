import DistributedCluster.Membership.Defence
/-!
# Whether a message can make a node disown itself

Two handlers write the entry that a node has for itself without looking whose it is: a
`Join` replaces it, and the members of an `Ack` are merged into it.
-/

namespace MembershipService

variable {s : MembershipService} {x : NodeId} {m : Node} {i : UInt64} {now : Instant}

/-- The members that are about `x`, and each newer than `i` and than those before it. -/
def news (x : NodeId) (i : UInt64) : List Node → List Node
  | [] => []
  | m :: members => if m.id = x ∧ i < m.incarnation then m :: news x m.incarnation members else news x i members

/-- None of them says `Dead`, and the last of them, if there is one, says `Alive`. -/
def Reassuring (members : List Node) : Prop :=
  (∀ m ∈ members, m.state ≠ .Dead) ∧ ∀ m, members.getLast? = some m → m.state = .Alive

/-- The message says nothing of the receiver that it would believe and that ends otherwise
than with `Alive`. -/
def Harmless (s : MembershipService) : GossipMessage → Prop
  | .Ack sender incarnation members =>
    (∃ m, s.get_member sender = some m ∧ m.state = .Dead) ∨
      ∀ m, s.get_member s.local_id = some m →
        Reassuring (news s.local_id (if sender = s.local_id then max incarnation m.incarnation else m.incarnation) members)
  | .Join node => node.id = s.local_id → node.state = .Alive
  | .Ping .. | .Suspect .. | .Alive .. => True

/-! ## The members of an `Ack` -/

theorem merge_member_other (h : m.id ≠ x) : (merge_member now s m).get_member x = s.get_member x := by
  unfold merge_member
  split
  · split
    · rfl
    · split
      · simp [Ne.symm h]
      · rfl
  · split
    · rfl
    · simp [Ne.symm h]

theorem merge_members_dead (hm : s.get_member x = some m) (hdead : m.state = .Dead) (members : List Node) :
    (members.foldl (merge_member now) s).get_member x = some m := by
  induction members generalizing s with
  | nil => exact hm
  | cons m' members ih =>
    apply ih
    by_cases hx : m'.id = x
    · subst hx
      simp [merge_member, hm, hdead]
    · rw [merge_member_other hx, hm]

/-- The entry that the members make of one that is not `Dead` is `Alive` exactly if they
reassure, or say nothing new and it was `Alive`. -/
theorem merge_members_alive (hm : s.get_member x = some m) (hid : m.id = x) (hstate : m.state ≠ .Dead) (now : Instant)
    (members : List Node) :
    (∃ m', (members.foldl (merge_member now) s).get_member x = some m' ∧ m'.id = x ∧ m'.state = .Alive) ↔
      (∀ n ∈ news x m.incarnation members, n.state ≠ .Dead) ∧
        ((news x m.incarnation members).getLast?.map Node.state).getD m.state = .Alive := by
  induction members generalizing s m with
  | nil =>
    simp only [List.foldl_nil, hm, news, List.not_mem_nil, false_implies, implies_true, true_and, List.getLast?_nil,
      Option.map_none, Option.getD_none]
    constructor
    · rintro ⟨m', hm', -, halive⟩
      cases hm'
      exact halive
    · exact fun halive => ⟨m, rfl, hid, halive⟩
  | cons n members ih =>
    rw [List.foldl_cons, news]
    by_cases hnews : n.id = x ∧ m.incarnation < n.incarnation
    · obtain ⟨hx, hlt⟩ := hnews
      have hmerged : (merge_member now s n).get_member x =
          some { m with state := n.state, incarnation := n.incarnation, last_seen := some now } := by
        subst hx
        simp [merge_member, hm, hstate, hlt]
      rw [if_pos ⟨hx, hlt⟩]
      by_cases hdead : n.state = .Dead
      · -- nothing is merged into a dead entry
        rw [merge_members_dead hmerged hdead]
        constructor
        · rintro ⟨m', hm', -, halive⟩
          cases hm'
          rw [hdead] at halive
          cases halive
        · exact fun h => absurd hdead (h.1 n List.mem_cons_self)
      · rw [ih hmerged hid hdead]
        have hlast : ((n :: news x n.incarnation members).getLast?.map Node.state).getD m.state =
            ((news x n.incarnation members).getLast?.map Node.state).getD n.state := by
          rw [List.getLast?_cons]
          cases (news x n.incarnation members).getLast? <;> rfl
        simp only [hlast, List.forall_mem_cons, hdead, ne_eq, not_false_eq_true, true_and]
    · rw [if_neg hnews]
      apply ih ?_ hid hstate
      by_cases hx : n.id = x
      · subst hx
        have hold : ¬ n.incarnation > m.incarnation := fun hlt => hnews ⟨rfl, hlt⟩
        simp [merge_member, hm, hstate, hold]
      · rw [merge_member_other hx, hm]

theorem reassuring_iff (members : List Node) :
    Reassuring members ↔ (∀ n ∈ members, n.state ≠ .Dead) ∧ (members.getLast?.map Node.state).getD .Alive = .Alive := by
  unfold Reassuring
  cases members.getLast? with
  | none => simp
  | some n => simp

/-! ## One message -/

/-- Whether a node holds itself `Alive` is read off its own entry. -/
theorem exists_ownAlive_iff {s' : MembershipService} (hlocal : s'.local_id = s.local_id) :
    (∃ m', s'.OwnAlive m') ↔ ∃ m', s'.get_member s.local_id = some m' ∧ m'.id = s.local_id ∧ m'.state = .Alive := by
  constructor
  · rintro ⟨m', hentry, hid, halive⟩
    rw [hlocal] at hentry hid
    exact ⟨m', hentry, hid, halive⟩
  · rintro ⟨m', hentry, hid, halive⟩
    exact ⟨m', by rw [hlocal, hentry], by rw [hlocal, hid], halive⟩

theorem ownAlive_handle_ack_iff (h : s.OwnAlive m) (sender : NodeId) (incarnation : UInt64) (members : List Node)
    (src : SocketAddr) (now : Instant) :
    (∃ m', (s.handle_message (.Ack sender incarnation members) src now).1.get_member s.local_id = some m' ∧
        m'.id = s.local_id ∧ m'.state = .Alive) ↔ Harmless s (.Ack sender incarnation members) := by
  obtain ⟨hm, hid, halive⟩ := h
  have hnot : m.state ≠ .Dead := by simp [halive]
  simp only [Harmless, handle_message, handle_ack, hm, Option.some.injEq, forall_eq', reassuring_iff]
  by_cases hsender : sender = s.local_id
  · -- its own acknowledgement first raises the incarnation of the entry that the members are merged into
    subst hsender
    have hset := merge_members_alive (s := s.set_member s.local_id
      { m with last_seen := some now, incarnation := max incarnation m.incarnation }) (get_set_member .. |>.trans (if_pos rfl))
      hid hnot now members
    have hmax : (if incarnation > m.incarnation then incarnation else m.incarnation) = max incarnation m.incarnation := by
      by_cases hle : incarnation ≤ m.incarnation
      · rw [if_neg (UInt64.not_lt.2 hle)]
        exact (if_pos hle).symm
      · rw [if_pos (UInt64.not_le.1 hle)]
        exact (if_neg hle).symm
    simpa [hm, hnot, hmax, halive] using hset
  · have hunsent : ∀ n, (s.set_member sender n).get_member s.local_id = some m := fun n => by
      simp [Ne.symm hsender, hm]
    cases hs : s.get_member sender with
    | none => simpa [hsender, halive] using merge_members_alive hm hid hnot now members
    | some n =>
      -- the members of a sender that is held `Dead` are not merged
      by_cases hdead : n.state = .Dead
      · simp [hdead, hm, hid, halive]
      · simpa [hsender, hdead, halive] using merge_members_alive (hunsent _) hid hnot now members

/-- A node that holds itself `Alive` still does after a message exactly if it is harmless. -/
theorem ownAlive_handle_message_iff (h : s.OwnAlive m) (msg : GossipMessage) (src : SocketAddr) (now : Instant) :
    (∃ m', (s.handle_message msg src now).1.OwnAlive m') ↔ Harmless s msg := by
  rw [exists_ownAlive_iff (Cluster.handle_message_sameNode s msg src now).local_id]
  cases msg with
  | Ping sender incarnation =>
    obtain ⟨hm, hid, halive⟩ := h
    simp only [Harmless, iff_true, handle_message, handle_ping]
    by_cases hsender : s.local_id = sender
    · subst hsender
      simp [hm, hid, halive]
    · split
      · simp [hsender, hm, hid, halive]
      · simp [hsender, hm, hid, halive]
  | Ack sender incarnation members => exact ownAlive_handle_ack_iff h sender incarnation members src now
  | Join node =>
    obtain ⟨hm, hid, halive⟩ := h
    simp only [Harmless, handle_message, handle_join]
    by_cases hnode : node.id = s.local_id
    · simp [hnode]
    · simp [hnode, Ne.symm hnode, hm, hid, halive]
  | Suspect node_id incarnation =>
    simp only [Harmless, iff_true, handle_message]
    by_cases hnode : s.local_id = node_id
    · -- it answers a suspicion of itself
      subst hnode
      rw [OwnAlive.handle_suspect h]
      obtain ⟨hm, hid, halive⟩ := h
      split
      · simp [hid]
      · simp [hm, hid, halive]
    · obtain ⟨hm, hid, halive⟩ := h
      -- raising the own incarnation leaves the members alone
      have hcounter : ∀ k, ({ s with incarnation := k } : MembershipService).get_member = s.get_member := fun _ => rfl
      unfold handle_suspect
      repeat' split
      all_goals simp [hnode, hcounter, hm, hid, halive]
  | Alive node_id incarnation =>
    obtain ⟨hm, hid, halive⟩ := h
    simp only [Harmless, iff_true, handle_message, handle_alive]
    by_cases hnode : s.local_id = node_id
    · subst hnode
      simp only [hm, halive]
      repeat' split
      all_goals simp_all
    · repeat' split
      all_goals simp [hnode, hm, hid, halive]

/-! ## Every run -/

/-- Every message is harmless when it is handled. -/
def OnlyHarmless (s : MembershipService) (es : List Timed) : Prop :=
  ∀ pre t d post, es = pre ++ (t, .deliver d) :: post → Harmless (s.lived pre) d.msg

theorem ownAlive_lived {es : List Timed} (h : ∃ m, s.OwnAlive m) (hes : OnlyHarmless s es) : ∃ m, (s.lived es).OwnAlive m := by
  induction es using List.reverseRecOn with
  | nil => exact h
  | append_singleton es e ih =>
    obtain ⟨t, e⟩ := e
    obtain ⟨m, hm⟩ := ih fun pre t' d post hpre => hes pre t' d (post ++ [(t, e)]) (by simp [hpre])
    rw [lived_snoc]
    cases e with
    | gossip target => exact ⟨m, hm⟩
    | deliver d => exact (ownAlive_handle_message_iff hm d.msg d.src t).2 (hes es t d [] rfl)
    | tick =>
      refine ⟨m, ?_, hm.id, hm.alive⟩
      rw [(Cluster.react_sameNode _ t .tick).local_id]
      refine ((Cluster.get_failure_detection _ t _).trans (congrArg _ hm.entry)).trans ?_
      rw [Option.map_some, detect, if_pos (.inl hm.id)]

/-- As long as all messages are harmless a node holds itself `Alive` and counts itself among
the owners; the first message that is not takes that away. -/
theorem owns_itself (id : NodeId) (bind_addr socket : SocketAddr) (seeds : List SocketAddr) (start : Instant) (es : List Timed)
    (hes : OnlyHarmless (MembershipService.new id bind_addr socket seeds start).1 es) :
    let s := (MembershipService.new id bind_addr socket seeds start).1.lived es
    (∃ m, s.OwnAlive m ∧ m ∈ s.get_alive_members) ∧ s.local_id ∈ PartitionManager.sorted_ids s.get_alive_members ∧
      ∀ msg src now, (∃ m, (s.handle_message msg src now).1.OwnAlive m) ↔ Harmless s msg := by
  obtain ⟨m, hm⟩ := ownAlive_lived (ownAlive_new id bind_addr socket seeds start) hes
  exact ⟨⟨m, hm, hm.listed.1⟩, hm.listed.2, ownAlive_handle_message_iff hm⟩

section Example

def here : SocketAddr := .V4 0x7f000001 5000

/-- A `Join` of the node `id`. -/
def join_of (id : NodeId) (state : NodeState) : GossipMessage := .Join ⟨id, here, http_of here, state, 1, none⟩

/-- Another node joins, even as a dead one. -/
theorem owns_itself_after_join :
    let s := (MembershipService.new ⟨"x"⟩ here here [] 0).1.lived [(1, .deliver ⟨here, here, join_of ⟨"y"⟩ .Dead⟩)]
    (∃ m, s.OwnAlive m ∧ m ∈ s.get_alive_members) ∧ s.local_id ∈ PartitionManager.sorted_ids s.get_alive_members ∧
      ∀ msg src now, (∃ m, (s.handle_message msg src now).1.OwnAlive m) ↔ Harmless s msg := by
  refine owns_itself ⟨"x"⟩ here here [] 0 _ ?_
  intro pre t d post hes
  cases pre with
  | nil =>
    cases hes
    intro hid
    exact absurd hid (by decide)
  | cons e pre => simp at hes

/-- A `Join` that names the receiver, as dead. -/
theorem disowned_by_join :
    ¬ ∀ (id : NodeId) (bind_addr socket : SocketAddr) (seeds : List SocketAddr) (start : Instant) (es : List Timed)
      (msg : GossipMessage) (src : SocketAddr) (now : Instant),
      ∃ m, (((MembershipService.new id bind_addr socket seeds start).1.lived es).handle_message msg src now).1.OwnAlive m := by
  intro h
  obtain ⟨m, hm⟩ := ownAlive_new ⟨"x"⟩ here here [] 0
  have hharmless := (ownAlive_handle_message_iff hm (join_of ⟨"x"⟩ .Dead) here 1).1 (h ⟨"x"⟩ here here [] 0 [] _ here 1)
  exact absurd (hharmless rfl) (by decide)

end Example

end MembershipService
