import DistributedCluster.Membership.Incarnations
/-!
# Suspicion is final

Nobody ever learns an incarnation other than 1: the counter is raised only by a
`Suspect` message that is strictly newer than the suspect's own entry, and a
`Suspect` message carries the incarnation of the entry it is about. So no
`Alive` message is ever sent, and what turns a suspect back to `Alive` in
another view (an `Alive` message, or a newer incarnation in an `Ack`) never
comes. Only a `Join` of the suspect itself resets its entry.
-/

namespace Cluster

open MembershipService

/-! ## A suspect stays one -/

def NotAlive (s : MembershipService) (x : NodeId) : Prop := ∃ m, s.get_member x = some m ∧ m.state ≠ .Alive

/-- The event does not deliver a `Join` of `x`. -/
def NoJoin (x : NodeId) (e : Event) : Prop :=
  ∀ id d node, e = .node id (.deliver d) → d.msg = .Join node → node.id ≠ x

theorem notAlive_handle_message {s : MembershipService} {x : NodeId} (h : NotAlive s x) (hf : FirstService s)
    {msg : GossipMessage} (hmsg : FirstMessage msg) (hj : ∀ node, msg = .Join node → node.id ≠ x)
    (src : SocketAddr) (now : Instant) : NotAlive (s.handle_message msg src now).1 x := by
  obtain ⟨m, hm, hst⟩ := h
  have hr := reaction hf hmsg src now x
  rw [hm] at hr
  unfold NotAlive
  generalize (s.handle_message msg src now).1.get_member x = after at hr
  cases hr with
  | kept => exact ⟨m, rfl, hst⟩
  | heard => exact ⟨_, rfl, hst⟩
  | joined _ node hmsg hid => exact absurd hid (hj node hmsg)

theorem detect_notAlive (local_id : NodeId) (now : Instant) {m : Node} (h : m.state ≠ .Alive) :
    (detect local_id now m).state ≠ .Alive := by
  unfold detect
  split
  · exact h
  · split
    · exact h
    · split
      · exact absurd ‹_› h
      · split
        · exact fun hd => nomatch hd
        · exact h
      · exact h

theorem notAlive_react {s : MembershipService} {x : NodeId} (h : NotAlive s x) (hf : FirstService s)
    (now : Instant) {e : LocalEvent} (he : ∀ d, e = .deliver d → FirstMessage d.msg)
    (hj : ∀ d node, e = .deliver d → d.msg = .Join node → node.id ≠ x) : NotAlive (s.react now e).1 x := by
  cases e with
  | gossip target => exact h
  | deliver d => exact notAlive_handle_message h hf (he d rfl) (fun node hn => hj d node rfl hn) d.src now
  | tick =>
    obtain ⟨m, hm, hst⟩ := h
    refine ⟨detect s.local_id now m, ?_, detect_notAlive _ _ hst⟩
    exact (DashMap.lookup_mapValues _ s.members x).trans (by rw [show s.members.lookup x = some m from hm]; rfl)

/-- `y` runs and its view holds `x` as something other than `Alive`. -/
def Doubts (c : Cluster) (y x : NodeId) : Prop := ∃ s, c.service y = some s ∧ NotAlive s x

theorem doubts_step {c c' : Cluster} {e : Event} {x y : NodeId} (he : NoJoin x e) (hstep : c.step e = some c')
    (hf : FirstIncarnation c) (h : Doubts c y x) : Doubts c' y x := by
  obtain ⟨s, hs, hx⟩ := h
  obtain ⟨id, b, so, seeds, -, hid, rfl⟩ | ⟨id, le, s', rfl, hs', hen, rfl⟩ | ⟨ms, -, rfl⟩ := step_cases hstep
  · have hne : y ≠ id := by
      rintro rfl
      rw [hs] at hid
      cases hid
    exact ⟨s, by rw [update_service_of_ne c _ hne, hs], hx⟩
  · by_cases hy : y = id
    · subst hy
      rw [hs] at hs'
      cases hs'
      refine ⟨_, update_service_self .., ?_⟩
      exact notAlive_react hx (hf.service y s hs) c.now (fun d hd => hf.sent d (sent_of_enabled hen hd))
        fun d node hd => he y d node (by rw [hd])
    · exact ⟨s, by rw [update_service_of_ne c _ hy, hs], hx⟩
  · exact ⟨s, hs, hx⟩

theorem doubts_run {c c' : Cluster} (h : Reachable c) {x y : NodeId} (hd : Doubts c y x) {es : List Event}
    (hes : ∀ e ∈ es, NoJoin x e) (hrun : c.run es = some c') : Doubts c' y x :=
  (run_induction (P := fun c => FirstIncarnation c ∧ Doubts c y x)
    (fun _ _ _ he hstep hc => ⟨first_step hstep hc.1, doubts_step he hstep hc.1 hc.2⟩) hes
    ⟨first_reachable h, hd⟩ hrun).2

theorem Doubts.of_suspect {c : Cluster} {x y : NodeId} (h : c.holds y x = some .Suspect) : Doubts c y x := by
  obtain ⟨s, hs, hm⟩ := Option.bind_eq_some_iff.1 h
  obtain ⟨m, hm, hst⟩ := Option.map_eq_some_iff.1 hm
  exact ⟨s, hs, m, hm, by rw [hst]; decide⟩

theorem Doubts.not_alive {c : Cluster} {x y : NodeId} (h : Doubts c y x) : c.holds y x ≠ some .Alive := by
  obtain ⟨s, hs, m, hm, hst⟩ := h
  simpa only [holds, hs, Option.bind_some, hm, Option.map_some, ne_eq, Option.some.injEq] using hst

/-! ## Refutation -/

/-- A run without a `Join` of `x` after which `y` holds `x` as `Alive`. -/
def Refutable (c : Cluster) (y x : NodeId) : Prop :=
  ∃ es c', (∀ e ∈ es, NoJoin x e) ∧ c.run es = some c' ∧ c'.holds y x = some .Alive

theorem Doubts.not_refutable {c : Cluster} (h : Reachable c) {x y : NodeId} (hd : Doubts c y x) :
    ¬ Refutable c y x :=
  fun ⟨_, _, hes, hrun, halive⟩ => (doubts_run h hd hes hrun).not_alive halive

/-- In a reachable state, no suspicion can be refuted. -/
theorem suspicion_is_final {c : Cluster} (h : Reachable c) {x y : NodeId} (hs : c.holds y x = some .Suspect) :
    ¬ Refutable c y x :=
  (Doubts.of_suspect hs).not_refutable h

section Silence

def loopback (port : UInt16) : SocketAddr := .V4 0x7f000001 port

def observer : NodeId := ⟨"observer"⟩
def silent : NodeId := ⟨"silent"⟩

/-- `observer` starts, `silent` joins through it and is not heard of for five seconds. -/
def silence : List Event :=
  [.start observer (loopback 5000) (loopback 5000) [],
    .start silent (loopback 5001) (loopback 5001) [loopback 5000],
    .node observer (.deliver ⟨loopback 5001, loopback 5000,
      .Join ⟨silent, loopback 5001, loopback 6001, .Alive, 1, none⟩⟩),
    .elapse 5001, .node observer .tick]

def suspected : Cluster := (init.run silence).get (by decide)

theorem suspected_reachable : Reachable suspected := ⟨silence, by simp [suspected]⟩

theorem suspected_holds : suspected.holds observer silent = some .Suspect := by decide

theorem suspicion_is_final_after_silence : ¬ Refutable suspected observer silent :=
  suspicion_is_final suspected_reachable suspected_holds

theorem not_every_suspicion_refutable :
    ¬ ∀ c, Reachable c → ∀ x y, c.holds y x = some .Suspect → Refutable c y x :=
  fun h => (Doubts.of_suspect suspected_holds).not_refutable suspected_reachable
    (h suspected suspected_reachable silent observer suspected_holds)

end Silence

end Cluster
