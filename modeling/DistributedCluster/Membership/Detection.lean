import DistributedCluster.Membership.Contact
/-!
# A silent node is found out

When nothing of a node arrives any more, two ticks of the failure detector make it
`Suspect` and then `Dead`, each at the first tick after its timeout. So how long
this takes is bounded by the timeouts and the time between two ticks.
-/

namespace Cluster

open MembershipService

variable {c c' : Cluster} {x y : NodeId} {s : MembershipService} {m : Node} {now P : Nat}

/-! ## Every member has been seen -/

def Dated (s : MembershipService) (now : Instant) : Prop :=
  ∀ x m, s.get_member x = some m → ∃ last, m.last_seen = some last ∧ last ≤ now

theorem Dated.later {now' : Instant} (h : Dated s now) (hle : now ≤ now') : Dated s now' := by
  intro x m hm
  obtain ⟨last, hlast, hpast⟩ := h x m hm
  exact ⟨last, hlast, Nat.le_trans hpast hle⟩

theorem detect_last_seen (local_id : NodeId) {last : Instant} (h : m.last_seen = some last) :
    (detect local_id now m).last_seen = some last := by
  unfold detect
  split
  · exact h
  · simp only [h]
    repeat' split
    all_goals simp [h]

theorem dated_react (h : FirstService s) {e : LocalEvent} (he : ∀ d, e = .deliver d → FirstMessage d.msg)
    (hs : Dated s now) : Dated (s.react now e).1 now := by
  intro x m hm
  cases e with
  | gossip target => exact hs x m hm
  | tick =>
    obtain ⟨m', hm', rfl⟩ := Option.map_eq_some_iff.1 ((get_failure_detection s now x).symm.trans hm)
    obtain ⟨last, hlast, hpast⟩ := hs x m' hm'
    exact ⟨last, detect_last_seen s.local_id hlast, hpast⟩
  | deliver d =>
    cases hx : s.get_member x with
    | none =>
      obtain ⟨node, -, rfl, -⟩ := new_entry h (he d rfl) hx hm
      exact ⟨now, rfl, Nat.le_refl now⟩
    | some m' =>
      have hr := reaction h (he d rfl) d.src now x
      have hafter : (s.handle_message d.msg d.src now).1.get_member x = some m := hm
      rw [hafter, hx] at hr
      cases hr with
      | kept => exact hs x m hx
      | heard => exact ⟨now, rfl, Nat.le_refl now⟩
      | joined => exact ⟨now, rfl, Nat.le_refl now⟩

theorem dated_new (id : NodeId) (bind_addr socket : SocketAddr) (seeds : List SocketAddr) (now : Instant) :
    Dated (MembershipService.new id bind_addr socket seeds now).1 now := by
  intro x m hm
  simp only [get_member, MembershipService.new, DashMap.lookup_insert_eq, AList.lookup_empty] at hm
  split at hm
  · cases hm
    exact ⟨now, rfl, Nat.le_refl now⟩
  · cases hm

theorem dated_reachable (h : Reachable c) : ∀ id s, c.service id = some s → Dated s c.now := by
  suffices hboth : FirstIncarnation c ∧ ∀ id s, c.service id = some s → Dated s c.now from hboth.2
  refine reachable_induction (P := fun c => FirstIncarnation c ∧ ∀ id s, c.service id = some s → Dated s c.now)
    ⟨first_reachable ⟨[], rfl⟩, fun _ _ h => (nomatch h)⟩ ?_ h
  rintro c e c' hstep ⟨hf, hs⟩
  refine ⟨first_step hstep hf, fun id' s' hs' => ?_⟩
  obtain ⟨id, b, so, seeds, -, -, rfl⟩ | ⟨id, le, s, -, hservice, hen, rfl⟩ | ⟨ms, -, rfl⟩ := step_cases hstep
  · by_cases hid : id' = id
    · subst hid
      cases (update_service_self ..).symm.trans hs'
      exact dated_new id' b so seeds c.now
    · rw [update_service_of_ne c _ hid] at hs'
      exact hs id' s' hs'
  · by_cases hid : id' = id
    · subst hid
      cases (update_service_self ..).symm.trans hs'
      exact dated_react (hf.service _ s hservice) (fun d hd => hf.sent d (sent_of_enabled hen hd)) (hs _ s hservice)
    · rw [update_service_of_ne c _ hid] at hs'
      exact hs id' s' hs'
  · exact (hs id' s' hs').later (Nat.le_add_right c.now ms)

/-! ## Silence -/

/-- Nothing of `x` arrives at `y`. -/
structure Silent (y x : NodeId) (e : Event) : Prop where
  contact : ¬ Contact y x e
  join : ∀ d node, e = .node y (.deliver d) → d.msg = .Join node → node.id ≠ x

theorem silent_message (h : FirstService s) {msg : GossipMessage} (hmsg : FirstMessage msg) (hpeer : ¬ FromPeer x msg)
    (hjoin : ∀ node, msg = .Join node → node.id ≠ x) (src : SocketAddr) (hm : s.get_member x = some m) :
    (s.handle_message msg src now).1.get_member x = some m := by
  cases msg with
  | Ping sender i =>
    have hne : x ≠ sender := by
      rintro rfl
      exact hpeer (.ping i)
    simp only [handle_message, handle_ping]
    split <;> rw [get_set_member, if_neg hne, hm]
  | Ack sender i members =>
    have hne : x ≠ sender := by
      rintro rfl
      exact hpeer (.ack i members)
    have hmerged : ∀ s' : MembershipService, FirstService s' → s'.get_member x = some m →
        (members.foldl (merge_member now) s').get_member x = some m := by
      intro s' hs' hm'
      rcases @merge_members_adds now members hmsg.2 s' hs' x with hsame | ⟨hnone, -⟩
      · rw [hsame, hm']
      · rw [hm'] at hnone
        cases hnone
    simp only [handle_message, handle_ack]
    split
    · rename_i member hsender
      split
      · exact hm
      · have h1 := h.2 _ _ hsender
        exact hmerged _ (h.set_member (by simp [h1, hmsg.1])) (by rw [get_set_member, if_neg hne, hm])
    · exact hmerged s h hm
  | Join node =>
    simp only [handle_message, handle_join]
    rw [get_set_member, if_neg (hjoin node rfl).symm, hm]
  | Suspect node_id i =>
    obtain rfl : i = 1 := hmsg
    rw [handle_message, h.ignores_suspicion]
    exact hm
  | Alive node_id i => exact absurd hmsg id

/-! ## The ticks -/

/-- The time since the last tick of `y`'s failure detector. -/
def unchecked (y : NodeId) (elapsed : Nat) : Event → Nat
  | .elapse ms => elapsed + ms
  | .node id .tick => if id = y then 0 else elapsed
  | _ => elapsed

/-- In the run, at most `P` milliseconds lie between two ticks of `y`'s failure detector. -/
def Punctual (P : Nat) (y : NodeId) : Nat → List Event → Prop
  | elapsed, [] => elapsed ≤ P
  | elapsed, e :: es => elapsed ≤ P ∧ Punctual P y (unchecked y elapsed e) es

instance (P : Nat) (y : NodeId) : ∀ elapsed es, Decidable (Punctual P y elapsed es)
  | elapsed, [] => inferInstanceAs (Decidable (elapsed ≤ P))
  | elapsed, e :: es =>
    have := instDecidablePunctual P y (unchecked y elapsed e) es
    inferInstanceAs (Decidable (elapsed ≤ P ∧ Punctual P y (unchecked y elapsed e) es))

/-- How long after `start` a tick may still leave a silent member in a state. -/
def patience (P : Nat) : NodeState → Nat
  | .Alive => SUSPECT_TIMEOUT
  | _ => max DEAD_TIMEOUT (SUSPECT_TIMEOUT + P)

/-- Where a member is that has been silent since `start`, `elapsed` after the last tick. -/
structure Fading (P start : Nat) (s : MembershipService) (x : NodeId) (now elapsed : Nat) (m : Node) : Prop where
  known : s.get_member x = some m
  seen : ∃ last : Nat, m.last_seen = some last ∧ last ≤ start
  state : m.state = .Dead ∨ now ≤ start + patience P m.state + elapsed

/-- A tick that leaves the state as it is comes before the timeout. -/
theorem fading_tick {start elapsed : Nat} (hname : m.id = x) (hne : s.local_id ≠ x) (helapsed : elapsed ≤ P)
    (h : Fading P start s x now elapsed m) : ∃ m', Fading P start (s.failure_detection now).1 x now 0 m' := by
  obtain ⟨hknown, ⟨last, hlast, hsilent⟩, hstate⟩ := h
  refine ⟨detect s.local_id now m, (get_failure_detection s now x).trans (congrArg _ hknown),
    ⟨last, detect_last_seen s.local_id hlast, hsilent⟩, ?_⟩
  have hid : m.id ≠ s.local_id := by rw [hname]; exact hne.symm
  cases hm : m.state with
  | Dead =>
    left
    rw [detect, if_pos (.inr hm), hm]
  | Alive =>
    rw [hm] at hstate
    have hlate : now ≤ start + SUSPECT_TIMEOUT + elapsed := hstate.resolve_left (by simp)
    simp only [detect, hid, hm, hlast, reduceCtorEq, or_self, if_false]
    unfold SUSPECT_TIMEOUT at *
    split
    · right
      simp only [patience, SUSPECT_TIMEOUT, DEAD_TIMEOUT]
      omega
    · rename_i hearly
      have hearly : ¬ now - last > 5000 := hearly
      right
      simp only [hm, patience, SUSPECT_TIMEOUT]
      omega
  | Suspect =>
    simp only [detect, hid, hm, hlast, reduceCtorEq, or_self, if_false]
    unfold DEAD_TIMEOUT
    split
    · exact .inl rfl
    · rename_i hearly
      have hearly : ¬ now - last > 10000 := hearly
      right
      simp only [hm, patience, DEAD_TIMEOUT]
      omega

/-- What `y` holds of `x`, in the run. -/
def FadingAt (P start : Nat) (y x : NodeId) (elapsed : Nat) (c : Cluster) : Prop :=
  ∃ s m, c.service y = some s ∧ Fading P start s x c.now elapsed m

theorem fading_step {start elapsed : Nat} (h : Reachable c) (hne : x ≠ y) {e : Event} (hsilent : Silent y x e)
    (helapsed : elapsed ≤ P) (hstep : c.step e = some c') (hfading : FadingAt P start y x elapsed c) :
    FadingAt P start y x (unchecked y elapsed e) c' := by
  have hf := first_reachable h
  have hv := selfView_reachable h
  obtain ⟨s, m, hs, hm⟩ := hfading
  obtain ⟨id, b, so, seeds, rfl, hid, rfl⟩ | ⟨id, le, s', rfl, hs', hen, rfl⟩ | ⟨ms, rfl, rfl⟩ := step_cases hstep
  · have hy : y ≠ id := by
      rintro rfl
      rw [hs] at hid
      cases hid
    exact ⟨s, m, (update_service_of_ne c _ hy).trans hs, hm⟩
  · by_cases hy : y = id
    · subst hy
      rw [hs] at hs'
      cases hs'
      cases le with
      | gossip target => exact ⟨_, m, update_service_self .., hm⟩
      | tick =>
        have hlocal : s.local_id ≠ x := by
          rw [hv.local_id y s hs]
          exact hne.symm
        obtain ⟨m', hm'⟩ := fading_tick (hv.entries y s hs x m hm.known).1 hlocal helapsed hm
        refine ⟨_, m', update_service_self .., ?_⟩
        rw [unchecked, if_pos rfl]
        exact hm'
      | deliver d =>
        have hpeer : ¬ FromPeer x d.msg := fun hpeer => hsilent.contact ⟨d, rfl, hpeer⟩
        have hkept : (s.handle_message d.msg d.src c.now).1.get_member x = some m :=
          silent_message (hf.service y s hs) (hf.sent d (sent_of_enabled hen rfl)) hpeer
            (fun node => hsilent.join d node rfl) d.src hm.known
        exact ⟨_, m, update_service_self .., hkept, hm.seen, hm.state⟩
    · refine ⟨s, m, (update_service_of_ne c _ hy).trans hs, ?_⟩
      have hsame : unchecked y elapsed (.node id le) = elapsed := by
        cases le <;> simp [unchecked, Ne.symm hy]
      rw [hsame]
      exact hm
  · refine ⟨s, m, hs, hm.known, hm.seen, hm.state.imp_right fun hle => ?_⟩
    simp only [unchecked]
    omega

theorem fading_run {start : Nat} (hne : x ≠ y) {es : List Event} {elapsed : Nat} (h : Reachable c)
    (hsilent : ∀ e ∈ es, Silent y x e) (hpunctual : Punctual P y elapsed es) (hfading : FadingAt P start y x elapsed c)
    (hrun : c.run es = some c') : ∃ elapsed', elapsed' ≤ P ∧ FadingAt P start y x elapsed' c' := by
  induction es generalizing c elapsed with
  | nil =>
    cases hrun
    exact ⟨elapsed, hpunctual, hfading⟩
  | cons e es ih =>
    obtain ⟨helapsed, hrest⟩ := hpunctual
    obtain ⟨c₁, hstep, hrun⟩ := run_cons hrun
    have hone : c.run [e] = some c₁ := by
      rw [run, hstep]
      rfl
    have hreach : Reachable c₁ := reachable_run h hone
    exact ih hreach (fun e' he' => hsilent e' (List.mem_cons_of_mem _ he')) hrest
      (fading_step h hne (hsilent e List.mem_cons_self) helapsed hstep hfading) hrun

/-- A node of which nothing arrives is `Dead` in the view of every node that ticks, soon
after the timeouts. -/
theorem silence_detected (h : Reachable c) (hne : x ≠ y) (hknown : c.holds y x ≠ none) {es : List Event}
    (hsilent : ∀ e ∈ es, Silent y x e) (hpunctual : Punctual P y 0 es) (hrun : c.run es = some c')
    (htime : c.now + max DEAD_TIMEOUT (SUSPECT_TIMEOUT + P) + P < c'.now) : c'.holds y x = some .Dead := by
  obtain ⟨s, m, hs, hm⟩ := holds_some hknown
  have hstart : FadingAt P c.now y x 0 c := ⟨s, m, hs, hm, dated_reachable h y s hs x m hm, .inr (by omega)⟩
  obtain ⟨elapsed, helapsed, s', m', hs', hknown', -, hstate⟩ := fading_run hne h hsilent hpunctual hstart hrun
  have hpatience : patience P m'.state ≤ max DEAD_TIMEOUT (SUSPECT_TIMEOUT + P) := by
    unfold patience
    split <;> omega
  have hdead : m'.state = .Dead := by
    refine hstate.resolve_right fun hle => absurd htime (Nat.not_lt.2 ?_)
    exact Nat.le_trans hle (Nat.add_le_add (Nat.add_le_add_left hpatience _) helapsed)
  simp [holds, hs', hknown', hdead]

section Crash

/-- `silent` is heard no more; `observer` ticks every six seconds. -/
def crash : List Event :=
  [.elapse 6000, .node observer .tick, .elapse 6000, .node observer .tick, .elapse 6000]

def buried : Cluster := (suspected.run crash).get (by decide)

theorem silence_detected_after_crash : buried.holds observer silent = some .Dead := by
  have hrun : suspected.run crash = some buried := by simp [buried]
  refine silence_detected (P := 6000) suspected_reachable (by decide) (by decide) ?_ (by decide) hrun (by decide)
  intro e he
  simp only [crash, List.mem_cons, List.not_mem_nil, or_false] at he
  obtain rfl | rfl | rfl | rfl | rfl := he <;>
    exact ⟨(by rintro ⟨d, hd, -⟩; cases hd), (by rintro d node hd; cases hd)⟩

end Crash

end Cluster
