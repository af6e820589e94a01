import DistributedCluster.Membership.Lifetime
/-!
# Whether self-defence outranks a suspicion

A node answers a suspicion only if it is newer than the node's entry for itself, and
answers with the number after its counter, which need not be after the suspicion's.
-/

namespace MembershipService

/-- The node has refuted the suspicion `i`: it counts further than `i`, and whoever
believed the suspicion takes the answer. -/
structure Defended (s : MembershipService) (i : UInt64) (r : MembershipService × List Datagram) : Prop where
  counter : i < r.1.incarnation
  own : ∃ m, r.1.get_member s.local_id = some m ∧ m.state = .Alive ∧ i < m.incarnation
  broadcast : r.2 = r.1.broadcast_message (.Alive s.local_id r.1.incarnation)
  accepted : ∀ (peer : MembershipService) (m : Node) (now : Instant), peer.get_member s.local_id = some m → m.state = .Suspect →
    m.incarnation = i → ∃ m', (peer.handle_alive s.local_id r.1.incarnation now).get_member s.local_id = some m' ∧ m'.state = .Alive

variable {s : MembershipService} {m : Node} {i : UInt64} {now : Instant}

/-- What a node makes of a suspicion of itself. -/
theorem OwnAlive.handle_suspect (h : s.OwnAlive m) (i : UInt64) (now : Instant) :
    s.handle_suspect s.local_id i now =
      if m.incarnation < i then
        let s' := { s with incarnation := s.incarnation + 1 }.set_member s.local_id
          { m with incarnation := s.incarnation + 1, state := .Alive, last_seen := some now }
        (s', s'.broadcast_message (.Alive s.local_id (s.incarnation + 1)))
      else (s, []) := by
  unfold MembershipService.handle_suspect
  simp [h.entry, h.alive, h.id]

/-- A suspect with a number up to that of an `Alive` message is `Alive` afterwards. -/
theorem handle_alive_suspect {peer : MembershipService} {x : NodeId} (hm : peer.get_member x = some m) (hstate : m.state = .Suspect)
    (hi : m.incarnation ≤ i) (now : Instant) :
    ∃ m', (peer.handle_alive x i now).get_member x = some m' ∧ m'.state = .Alive := by
  unfold MembershipService.handle_alive
  simp only [hm, hstate]
  rcases UInt64.lt_or_eq_of_le hi with hlt | heq
  · simp [hlt]
  · simp [heq]

/-- A counter that is not at its end gets past what it has reached. -/
theorem lt_succ_iff {counter : UInt64} : i < counter + 1 ↔ i ≤ counter ∧ counter.toNat + 1 < 2 ^ 64 := by
  have hi := i.toNat_lt
  have hcounter := counter.toNat_lt
  have hone : (1 : UInt64).toNat = 1 := rfl
  rw [UInt64.lt_iff_toNat_lt, UInt64.le_iff_toNat_le, UInt64.toNat_add, hone]
  omega

/-- A suspicion that is not old is outranked only if it is news. -/
theorem OwnAlive.news_of_defended (h : s.OwnAlive m) (hi : m.incarnation ≤ i ∨ s.incarnation ≤ i)
    (hdefended : Defended s i (s.handle_suspect s.local_id i now)) : m.incarnation < i ∧ i < s.incarnation + 1 := by
  rw [h.handle_suspect] at hdefended
  by_cases hnews : m.incarnation < i
  · have hcounter := hdefended.counter
    rw [if_pos hnews] at hcounter
    exact ⟨hnews, hcounter⟩
  · -- the suspicion is ignored
    obtain ⟨m', hm', -, hown⟩ := hdefended.own
    have hcounter := hdefended.counter
    rw [if_neg hnews] at hm' hcounter
    rw [h.entry] at hm'
    cases hm'
    rcases hi with hi | hi
    · exact absurd hown (UInt64.not_lt.2 hi)
    · exact absurd hcounter (UInt64.not_lt.2 hi)

/-- A suspicion that is not old, by the node's entry for itself or by its counter, is
outranked exactly if it is newer than the entry, but not newer than the counter, and
the counter can be raised. -/
theorem defended_iff (h : s.OwnAlive m) (hi : m.incarnation ≤ i ∨ s.incarnation ≤ i) (now : Instant) :
    Defended s i (s.handle_suspect s.local_id i now) ↔
      m.incarnation < i ∧ i ≤ s.incarnation ∧ s.incarnation.toNat + 1 < 2 ^ 64 := by
  constructor
  · intro hdefended
    obtain ⟨hnews, hroom⟩ := h.news_of_defended hi hdefended
    exact ⟨hnews, lt_succ_iff.1 hroom⟩
  · rintro ⟨hnews, hroom⟩
    rw [h.handle_suspect, if_pos hnews]
    have hnext : i < s.incarnation + 1 := lt_succ_iff.2 hroom
    refine ⟨hnext, ⟨_, get_set_member .. |>.trans (if_pos rfl), rfl, hnext⟩, rfl, ?_⟩
    intro peer m' now' hm' hstate hinc
    apply handle_alive_suspect hm' hstate
    rw [hinc]
    exact UInt64.le_of_lt hnext

/-- A node whose counter is ahead of its entry. -/
def ahead : MembershipService where
  local_node := ⟨⟨"x"⟩, .V4 0x7f000001 5000, .V4 0x7f000001 6000, .Alive, 1, none⟩
  members := (∅ : DashMap NodeId Node).insert ⟨"x"⟩ ⟨⟨"x"⟩, .V4 0x7f000001 5000, .V4 0x7f000001 6000, .Alive, 1, none⟩
  socket := .V4 0x7f000001 5000
  incarnation := 3

theorem defended_ahead : Defended ahead 2 (ahead.handle_suspect ⟨"x"⟩ 2 0) := by
  have h : ahead.OwnAlive ⟨⟨"x"⟩, .V4 0x7f000001 5000, .V4 0x7f000001 6000, .Alive, 1, none⟩ := ⟨by decide, rfl, rfl⟩
  exact (defended_iff h (.inl (by decide)) 0).2 ⟨by decide, by decide, by decide⟩

/-- A node that has just started ignores the suspicion its peers raise against it. -/
theorem suspicion_ignored :
    ¬ ∀ (s : MembershipService) (m : Node) (i : UInt64) (now : Instant), s.OwnAlive m → s.incarnation ≤ i →
      Defended s i (s.handle_suspect s.local_id i now) := by
  intro h
  obtain ⟨m, hm⟩ := ownAlive_new ⟨"x"⟩ (.V4 0x7f000001 5000) (.V4 0x7f000001 5000) [] 0
  obtain ⟨hnews, -⟩ := (defended_iff hm (.inr (UInt64.le_refl 1)) 0).1 (h _ m 1 0 hm (UInt64.le_refl 1))
  have hfirst : m.incarnation = 1 := by
    have hentry := hm.entry
    simp only [MembershipService.new, get_member, local_id, DashMap.lookup_insert_eq, if_pos] at hentry
    cases hentry
    rfl
  rw [hfirst] at hnews
  exact UInt64.lt_irrefl 1 hnews

end MembershipService

namespace Cluster

open MembershipService

/-- In a cluster the entry and the counter are the same, so no suspicion is ever outranked. -/
theorem never_defended {c : Cluster} (h : Reachable c) {id : NodeId} {s : MembershipService} (hs : c.service id = some s)
    {i : UInt64} (hi : s.incarnation ≤ i) (now : Instant) : ¬ Defended s i (s.handle_suspect s.local_id i now) := by
  obtain ⟨m, hm, hid, hstate, hcounter⟩ := own_entry h hs
  intro hdefended
  obtain ⟨hnews, hroom⟩ := OwnAlive.news_of_defended ⟨hm, hid, hstate⟩ (.inr hi) hdefended
  rw [hcounter] at hnews
  exact UInt64.not_lt.2 (lt_succ_iff.1 hroom).1 hnews

end Cluster
