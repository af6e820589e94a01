import DistributedCluster.Membership.Disowning
/-!
# How long a suspicion lasts

The detector counts from `last_seen` to both of its timeouts. What a message says of a
member sets `last_seen`, the detector's own suspicion does not: between the two of them
lies the difference of the timeouts, or less if a tick is late.
-/

namespace MembershipService

/-- The view holds `x` as `Suspect`. -/
def Suspects (s : MembershipService) (x : NodeId) : Prop := ∃ m, s.get_member x = some m ∧ m.state = .Suspect

/-- `x` is a suspect after `pre`, and all the time from there on. -/
def SuspectedSince (s : MembershipService) (x : NodeId) (pre post : List Timed) : Prop :=
  ∀ q, q <+: post → (s.lived (pre ++ q)).Suspects x

/-- When the detector looks at `now`, `x` has been a suspect for more than `DEAD_TIMEOUT`. -/
def LongSuspected (s : MembershipService) (start : Instant) (x : NodeId) (es : List Timed) (now : Instant) : Prop :=
  ∃ pre post, es = pre ++ post ∧ s.SuspectedSince x pre post ∧ clock start pre + DEAD_TIMEOUT < now

/-- The detector itself has suspected `x`, at most `DEAD_TIMEOUT` ago, and nothing has
touched the entry since. -/
def JustTimedOut (s : MembershipService) (x : NodeId) (es : List Timed) (now : Instant) : Prop :=
  ∃ pre t post, es = pre ++ (t, .tick) :: post ∧ ¬ (s.lived pre).Suspects x ∧
    (∀ q, q <+: post → (s.lived (pre ++ (t, .tick) :: q)).get_member x = (s.lived (pre ++ [(t, .tick)])).get_member x) ∧
    now ≤ t + DEAD_TIMEOUT

/-- The tick at `now` makes `x` a dead member. -/
structure Dies (s : MembershipService) (x : NodeId) (es : List Timed) (now : Instant) : Prop where
  before : ∃ m, (s.lived es).get_member x = some m ∧ m.state ≠ .Dead
  after : ∃ m, (s.lived (es ++ [(now, .tick)])).get_member x = some m ∧ m.state = .Dead

variable {s : MembershipService} {x : NodeId} {start now : Instant} {es : List Timed} {e : LocalEvent} {m : Node}

/-! ## What touches an entry -/

/-- An entry is as it was, or was seen now. -/
def Fresh (now : Instant) (before : Option Node) (m : Node) : Prop := before = some m ∨ m.last_seen = some now

theorem Fresh.set_member {node : Node} {y : NodeId} (hnode : node.last_seen = some now)
    (hm : (s.set_member y node).get_member x = some m) :
    Fresh now (s.get_member x) m := by
  rw [get_set_member] at hm
  split at hm
  · cases hm
    exact .inr hnode
  · exact .inl hm

theorem fresh_merge_member {node : Node} (hm : (merge_member now s node).get_member x = some m) :
    Fresh now (s.get_member x) m := by
  unfold merge_member at hm
  split at hm
  · split at hm
    · exact .inl hm
    · split at hm
      · exact Fresh.set_member rfl hm
      · exact .inl hm
  · split at hm
    · exact .inl hm
    · exact Fresh.set_member rfl hm

theorem fresh_merge_members {members : List Node} (hm : (members.foldl (merge_member now) s).get_member x = some m) :
    Fresh now (s.get_member x) m := by
  induction members generalizing s with
  | nil => exact .inl hm
  | cons node members ih =>
    rcases ih hm with hsame | hseen
    · exact fresh_merge_member hsame
    · exact .inr hseen

theorem fresh_handle_message {msg : GossipMessage} {src : SocketAddr} (hm : (s.handle_message msg src now).1.get_member x = some m) :
    Fresh now (s.get_member x) m := by
  cases msg with
  | Ping sender incarnation =>
    unfold handle_message handle_ping at hm
    dsimp only at hm
    split at hm
    · exact Fresh.set_member rfl hm
    · exact Fresh.set_member rfl hm
  | Ack sender incarnation members =>
    unfold handle_message handle_ack at hm
    dsimp only at hm
    split at hm
    · split at hm
      · exact .inl hm
      · rcases fresh_merge_members hm with hsame | hseen
        · exact Fresh.set_member rfl hsame
        · exact .inr hseen
    · exact fresh_merge_members hm
  | Join node => exact Fresh.set_member rfl hm
  | Suspect node_id incarnation =>
    unfold handle_message handle_suspect at hm
    dsimp only at hm
    repeat' split at hm
    all_goals first | exact .inl hm | exact Fresh.set_member rfl hm
  | Alive node_id incarnation =>
    unfold handle_message handle_alive at hm
    dsimp only at hm
    repeat' split at hm
    all_goals first | exact .inl hm | exact Fresh.set_member rfl hm

/-- A suspect is what it was, or was seen now, or the detector has just suspected it. -/
theorem suspect_react (hm : (s.react now e).1.get_member x = some m) (hstate : m.state = .Suspect) :
    Fresh now (s.get_member x) m ∨ e = .tick ∧ ¬ s.Suspects x := by
  cases e with
  | gossip target => exact .inl (.inl hm)
  | deliver d => exact .inl (fresh_handle_message hm)
  | tick =>
    obtain ⟨m', hm', rfl⟩ := Option.map_eq_some_iff.1 ((Cluster.get_failure_detection s now x).symm.trans hm)
    rw [hm']
    by_cases hbefore : m'.state = .Suspect
    · left
      unfold detect at hstate ⊢
      simp only [hbefore] at hstate ⊢
      repeat' split at hstate
      all_goals simp_all [Fresh]
    · refine .inr ⟨rfl, ?_⟩
      rintro ⟨m'', hm'', hsuspect⟩
      rw [hm'] at hm''
      cases hm''
      exact hbefore hsuspect

/-- The detector declares suspects dead that were seen long ago, and nobody else. -/
theorem detect_dead {local_id : NodeId} (hstate : m.state ≠ .Dead) (hdead : (detect local_id now m).state = .Dead) :
    m.state = .Suspect ∧ ∃ last, m.last_seen = some last ∧ last + DEAD_TIMEOUT < now := by
  unfold detect at hdead
  split at hdead
  · exact absurd hdead hstate
  · split at hdead
    · exact absurd hdead hstate
    · rename_i last hlast
      split at hdead
      · split at hdead
        · cases hdead
        · exact absurd hdead hstate
      · rename_i hsuspect
        split at hdead
        · rename_i hlate
          exact ⟨hsuspect, last, hlast, Nat.add_lt_of_lt_sub' hlate⟩
        · exact absurd hdead hstate
      · exact absurd ‹_› hstate

/-! ## Since when -/

theorem SuspectedSince.snoc {pre post : List Timed} (h : s.SuspectedSince x pre post) {a : Timed}
    (hlast : (s.lived (pre ++ (post ++ [a]))).Suspects x) : s.SuspectedSince x pre (post ++ [a]) := by
  intro q hq
  rcases List.prefix_concat_iff.1 hq with rfl | hq
  · exact hlast
  · exact h q hq

theorem InOrder.left {pre post : List Timed} (h : InOrder start (pre ++ post)) : InOrder start pre := by
  unfold InOrder at h ⊢
  rw [List.map_append, ← List.cons_append] at h
  exact (List.pairwise_append.1 h).1

theorem InOrder.clock_le {pre post : List Timed} (h : InOrder start (pre ++ post)) :
    clock start pre ≤ clock start (pre ++ post) := by
  induction post using List.reverseRecOn with
  | nil => simp
  | append_singleton post a ih =>
    obtain ⟨t, e⟩ := a
    rw [← List.append_assoc] at h ⊢
    obtain ⟨hpre, hle⟩ := h.snoc
    rw [clock_snoc]
    exact Nat.le_trans (ih hpre) hle

/-- How long `x` has been a suspect: since it was seen last, or longer, or else since a
tick of the detector after which nothing has touched the entry. -/
def SuspectHistory (s : MembershipService) (start : Instant) (x : NodeId) (es : List Timed) (m : Node) : Prop :=
  (∃ pre post, es = pre ++ post ∧ s.SuspectedSince x pre post ∧ ∀ last, m.last_seen = some last → clock start pre ≤ last) ∨
    ∃ pre t post, es = pre ++ (t, .tick) :: post ∧ ¬ (s.lived pre).Suspects x ∧
      s.SuspectedSince x (pre ++ [(t, .tick)]) post ∧
      ∀ q, q <+: post → (s.lived (pre ++ (t, .tick) :: q)).get_member x = (s.lived (pre ++ [(t, .tick)])).get_member x

/-- In both cases there is a beginning. -/
theorem SuspectHistory.since (h : s.SuspectHistory start x es m) :
    ∃ pre post, es = pre ++ post ∧ s.SuspectedSince x pre post := by
  rcases h with ⟨pre, post, hes, hsince, -⟩ | ⟨pre, t, post, hes, -, hsince, -⟩
  · exact ⟨pre, post, hes, hsince⟩
  · exact ⟨pre ++ [(t, .tick)], post, by simp [hes], hsince⟩

theorem SuspectHistory.kept (h : s.SuspectHistory start x es m) (hm : (s.lived es).get_member x = some m)
    (hm' : (s.lived (es ++ [(now, e)])).get_member x = some m) (hstate : m.state = .Suspect) :
    s.SuspectHistory start x (es ++ [(now, e)]) m := by
  rcases h with ⟨pre, post, rfl, hsince, hlast⟩ | ⟨pre, t, post, rfl, hnot, hsince, hsame⟩
  · refine .inl ⟨pre, post ++ [(now, e)], by simp, hsince.snoc ?_, hlast⟩
    rw [← List.append_assoc]
    exact ⟨m, hm', hstate⟩
  · refine .inr ⟨pre, t, post ++ [(now, e)], by simp, hnot, hsince.snoc ?_, ?_⟩
    · simp only [List.append_assoc, List.cons_append, List.nil_append] at hm' ⊢
      exact ⟨m, hm', hstate⟩
    · intro q hq
      rcases List.prefix_concat_iff.1 hq with rfl | hq
      · rw [← hsame post (List.prefix_refl post), hm, ← hm']
        simp
      · exact hsame q hq

theorem SuspectHistory.renewed (hold : (s.lived es).Suspects x → ∃ m', s.SuspectHistory start x es m')
    (horder : InOrder start (es ++ [(now, e)])) (hm : (s.lived (es ++ [(now, e)])).get_member x = some m)
    (hstate : m.state = .Suspect) (hlast : m.last_seen = some now) : s.SuspectHistory start x (es ++ [(now, e)]) m := by
  left
  by_cases hsuspect : (s.lived es).Suspects x
  · obtain ⟨m', hhistory⟩ := hold hsuspect
    obtain ⟨pre, post, rfl, hsince⟩ := hhistory.since
    refine ⟨pre, post ++ [(now, e)], by simp, hsince.snoc ?_, ?_⟩
    · rw [← List.append_assoc]
      exact ⟨m, hm, hstate⟩
    · intro last hseen
      rw [hlast] at hseen
      cases hseen
      obtain ⟨hes, hle⟩ := horder.snoc
      exact Nat.le_trans hes.clock_le hle
  · refine ⟨es ++ [(now, e)], [], by simp, ?_, ?_⟩
    · intro q hq
      rw [List.prefix_nil.1 hq, List.append_nil]
      exact ⟨m, hm, hstate⟩
    · intro last hseen
      rw [hlast] at hseen
      cases hseen
      simp

theorem suspectHistory_lived (h0 : ¬ s.Suspects x) (horder : InOrder start es) (hm : (s.lived es).get_member x = some m)
    (hstate : m.state = .Suspect) : s.SuspectHistory start x es m := by
  induction es using List.reverseRecOn generalizing m with
  | nil => exact absurd ⟨m, hm, hstate⟩ h0
  | append_singleton es a ih =>
    obtain ⟨now, e⟩ := a
    have hbefore := horder.snoc.1
    have hm' := hm
    rw [lived_snoc] at hm'
    rcases suspect_react hm' hstate with (hsame | hseen) | ⟨rfl, hnot⟩
    · exact (ih hbefore hsame hstate).kept hsame hm hstate
    · refine SuspectHistory.renewed ?_ horder hm hstate hseen
      rintro ⟨m', hm', hstate'⟩
      exact ⟨m', ih hbefore hm' hstate'⟩
    · -- the detector suspects `x` now
      refine .inr ⟨es, now, [], rfl, hnot, ?_, ?_⟩
      · intro q hq
        rw [List.prefix_nil.1 hq, List.append_nil]
        exact ⟨m, hm, hstate⟩
      · intro q hq
        rw [List.prefix_nil.1 hq]

/-! ## Death -/

theorem not_justTimedOut (horder : InOrder start es) (h : s.LongSuspected start x es now) : ¬ s.JustTimedOut x es now := by
  rintro ⟨pre, t, post, rfl, hnot, -, hrecent⟩
  obtain ⟨pre', post', hes, hsince, hlong⟩ := h
  rcases List.append_eq_append_iff.1 hes with ⟨r, rfl, hr⟩ | ⟨r, rfl, hr⟩
  · cases r with
    | nil =>
      have hpre := hsince [] List.nil_prefix
      simp only [List.append_nil] at hpre
      exact hnot hpre
    | cons a r =>
      -- the suspicion begins with the tick, or later
      obtain ⟨rfl, rfl⟩ := List.cons.inj hr
      have hearlier : InOrder start (pre ++ [(t, .tick)] ++ r) := by
        have hsplit : pre ++ (t, LocalEvent.tick) :: r.append post' = pre ++ [(t, .tick)] ++ r ++ post' := by simp
        exact (hsplit ▸ horder).left
      have hclock := hearlier.clock_le
      rw [clock_snoc] at hclock
      have hsame : pre ++ [(t, LocalEvent.tick)] ++ r = pre ++ (t, .tick) :: r := by simp
      rw [hsame] at hclock
      exact absurd (Nat.lt_of_le_of_lt (Nat.add_le_add_right hclock _) hlong) (Nat.not_lt.2 hrecent)
  · exact hnot (hsince r ⟨_, hr.symm⟩)

/-- Whatever a node receives and however late its ticks are: a member that it declares dead
has been a suspect for more than `DEAD_TIMEOUT`, exactly if it was not the detector itself
that suspected it within that time, with nothing heard since. -/
theorem long_suspected_iff (id : NodeId) (bind_addr socket : SocketAddr) (seeds : List SocketAddr) (start : Instant) (es : List Timed)
    (now : Instant) (x : NodeId) (horder : InOrder start (es ++ [(now, .tick)]))
    (hdies : Dies (MembershipService.new id bind_addr socket seeds start).1 x es now) :
    LongSuspected (MembershipService.new id bind_addr socket seeds start).1 start x es now ↔
      ¬ JustTimedOut (MembershipService.new id bind_addr socket seeds start).1 x es now := by
  obtain ⟨hes, -⟩ := horder.snoc
  refine ⟨not_justTimedOut hes, fun hnot => ?_⟩
  have h0 : ¬ (MembershipService.new id bind_addr socket seeds start).1.Suspects x := by
    rintro ⟨m, hm, hstate⟩
    simp only [MembershipService.new, get_member, DashMap.lookup_insert_eq, AList.lookup_empty] at hm
    split at hm
    · cases hm
      cases hstate
    · cases hm
  obtain ⟨⟨m, hm, halive⟩, ⟨m', hm', hdead⟩⟩ := hdies
  rw [lived_snoc] at hm'
  obtain ⟨m'', hm'', rfl⟩ := Option.map_eq_some_iff.1 ((Cluster.get_failure_detection _ now x).symm.trans hm')
  rw [hm] at hm''
  cases hm''
  obtain ⟨hstate, last, hlast, hlate⟩ := detect_dead halive hdead
  rcases suspectHistory_lived h0 hes hm hstate with ⟨pre, post, hsplit, hsince, hseen⟩ | ⟨pre, t, post, hsplit, hnever, hsince, hsame⟩
  · exact ⟨pre, post, hsplit, hsince, Nat.lt_of_le_of_lt (Nat.add_le_add_right (hseen last hlast) _) hlate⟩
  · refine ⟨pre ++ [(t, .tick)], post, by simp [hsplit], hsince, ?_⟩
    rw [clock_snoc]
    by_contra hrecent
    exact hnot ⟨pre, t, post, hsplit, hnever, hsame, Nat.not_lt.1 hrecent⟩

section Example

/-- A node that other nodes can reach, at time 0. -/
def watcher : MembershipService := (MembershipService.new ⟨"x"⟩ here here [] 0).1

/-- `y` joins, and is suspected by somebody else. -/
def reported : List Timed :=
  [(0, .deliver ⟨here, here, join_of ⟨"y"⟩ .Alive⟩), (1000, .deliver ⟨here, here, .Suspect ⟨"y"⟩ 2⟩)]

theorem long_suspected_reported : LongSuspected watcher 0 ⟨"y"⟩ reported 11001 := by
  refine (long_suspected_iff ⟨"x"⟩ here here [] 0 reported 11001 ⟨"y"⟩ (by unfold InOrder reported; decide) ?_).2 ?_
  · exact ⟨⟨_, rfl, by decide⟩, ⟨_, rfl, by decide⟩⟩
  · rintro ⟨pre, t, post, hes, -⟩
    have htick : (t, LocalEvent.tick) ∈ reported := by simp [hes]
    simp [reported] at htick

/-- `y` joins and is never heard again. -/
def unheard : List Timed := [(0, .deliver ⟨here, here, join_of ⟨"y"⟩ .Alive⟩), (5001, .tick)]

/-- Five seconds after the detector has suspected `y` it declares it dead. -/
theorem dead_after_five_seconds :
    ¬ ∀ (id : NodeId) (bind_addr socket : SocketAddr) (seeds : List SocketAddr) (start : Instant) (es : List Timed)
      (now : Instant) (x : NodeId), InOrder start (es ++ [(now, .tick)]) →
      Dies (MembershipService.new id bind_addr socket seeds start).1 x es now →
      LongSuspected (MembershipService.new id bind_addr socket seeds start).1 start x es now := by
  intro h
  have horder : InOrder 0 (unheard ++ [(10001, .tick)]) := by unfold InOrder unheard; decide
  have hlong := h ⟨"x"⟩ here here [] 0 unheard 10001 ⟨"y"⟩ horder ⟨⟨_, rfl, by decide⟩, ⟨_, rfl, by decide⟩⟩
  refine not_justTimedOut horder.left hlong ⟨[(0, .deliver ⟨here, here, join_of ⟨"y"⟩ .Alive⟩)], 5001, [], rfl, ?_, ?_, by decide⟩
  · rintro ⟨m, hm, hstate⟩
    cases hm
    cases hstate
  · intro q hq
    rw [List.prefix_nil.1 hq]

end Example

end MembershipService
