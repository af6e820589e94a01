import DistributedCluster.Membership.LateJoin
/-!
# No death under contact

A view takes no `Dead` from another: a new entry is never `Dead`, and what a message
says of a known node is never news. Only the local timeout is left, and it counts
from `last_seen`, which no message sets back.
-/

namespace Cluster

open MembershipService

variable {c c' : Cluster} {x y : NodeId} {s : MembershipService} {t now T : Instant}

/-- A `Ping` or an `Ack` of `x` itself. -/
inductive FromPeer (x : NodeId) : GossipMessage → Prop
  | ping (incarnation : UInt64) : FromPeer x (.Ping x incarnation)
  | ack (incarnation : UInt64) (members : List Node) : FromPeer x (.Ack x incarnation members)

/-- The event delivers one of those to `y`. -/
def Contact (y x : NodeId) (e : Event) : Prop := ∃ d, e = .node y (.deliver d) ∧ FromPeer x d.msg

/-- The step is a contact, or puts `x` into the view of `y`. -/
def Hears (y x : NodeId) (c : Cluster) (e : Event) (c' : Cluster) : Prop :=
  c'.holds y x ≠ none ∧ (Contact y x e ∨ c.holds y x = none)

/-- Up to `T`, the time since `y` last heard `x` is at most `DEAD_TIMEOUT`. -/
def InTouch (T : Instant) (y x : NodeId) (es : List Event) : Prop :=
  ∀ es₁ e es₂ es₃ c₁ c₂ c₃, es = es₁ ++ e :: (es₂ ++ es₃) → init.run es₁ = some c₁ → c₁.step e = some c₂ →
    Hears y x c₁ e c₂ → (∀ e' ∈ es₂, ¬ Contact y x e') → c₂.run es₂ = some c₃ → c₃.now ≤ T →
    c₃.now ≤ c₂.now + DEAD_TIMEOUT

/-! ## What an event does to `last_seen` -/

/-- `x` is known, not `Dead`, and was seen at `t` or later. -/
structure SeenSince (s : MembershipService) (x : NodeId) (t now : Instant) (m : Node) (last : Instant) : Prop where
  known : s.get_member x = some m
  state : m.state ≠ .Dead
  seen : m.last_seen = some last
  since : t ≤ last
  past : last ≤ now

def Seen (s : MembershipService) (x : NodeId) (t now : Instant) : Prop := ∃ m last, SeenSince s x t now m last

theorem Seen.now_entry {m : Node} (hm : s.get_member x = some { m with last_seen := some now }) (hstate : m.state ≠ .Dead)
    (ht : t ≤ now) : Seen s x t now :=
  ⟨_, now, hm, hstate, rfl, ht, Nat.le_refl now⟩

theorem detect_in_time (local_id : NodeId) {m : Node} {last : Instant} (hstate : m.state ≠ .Dead)
    (hseen : m.last_seen = some last)
    (htime : now ≤ last + DEAD_TIMEOUT) :
    (detect local_id now m).state ≠ .Dead ∧ (detect local_id now m).last_seen = some last := by
  have hnot : ¬ now - last > DEAD_TIMEOUT := Nat.not_lt.2 (Nat.sub_le_iff_le_add'.2 htime)
  unfold detect
  split
  · exact ⟨hstate, hseen⟩
  · simp only [hseen]
    split
    · split
      · simp
      · exact ⟨hstate, hseen⟩
    · rw [if_neg hnot]
      exact ⟨hstate, hseen⟩
    · exact ⟨hstate, hseen⟩

theorem seen_react (h : FirstService s) {e : LocalEvent} (he : ∀ d, e = .deliver d → FirstMessage d.msg)
    (hj : ∀ d node, e = .deliver d → d.msg = .Join node → node.state = .Alive) (htime : now ≤ t + DEAD_TIMEOUT)
    (hseen : Seen s x t now) : Seen (s.react now e).1 x t now := by
  obtain ⟨m, last, hm, hstate, hlast, hsince, hpast⟩ := hseen
  cases e with
  | gossip target => exact ⟨m, last, hm, hstate, hlast, hsince, hpast⟩
  | tick =>
    have hlimit : now ≤ last + DEAD_TIMEOUT := Nat.le_trans htime (Nat.add_le_add_right hsince DEAD_TIMEOUT)
    obtain ⟨hstate', hlast'⟩ := detect_in_time s.local_id hstate hlast hlimit
    exact ⟨_, last, (get_failure_detection s now x).trans (congrArg _ hm), hstate', hlast', hsince, hpast⟩
  | deliver d =>
    have hr := reaction h (he d rfl) d.src now x
    have hnow : t ≤ now := Nat.le_trans hsince hpast
    rw [hm] at hr
    generalize hafter : (s.handle_message d.msg d.src now).1.get_member x = after at hr
    cases hr with
    | kept => exact ⟨m, last, hafter, hstate, hlast, hsince, hpast⟩
    | heard => exact Seen.now_entry hafter hstate hnow
    | joined _ node hmsg _ =>
      refine Seen.now_entry hafter ?_ hnow
      rw [hj d node rfl hmsg]
      decide

/-- A contact is when `x` was seen last. -/
theorem seen_peer (h : FirstService s) {msg : GossipMessage} (hmsg : FirstMessage msg) (hpeer : FromPeer x msg)
    (src : SocketAddr)
    (hseen : Seen s x t now) : Seen (s.handle_message msg src now).1 x now now := by
  obtain ⟨m, last, hm, hstate, -⟩ := hseen
  have h1 := h.2 x m hm
  cases hpeer with
  | ping i =>
    obtain rfl : i = 1 := hmsg
    refine Seen.now_entry (m := m) ?_ hstate (Nat.le_refl now)
    simp [handle_message, handle_ping, hm, h1]
  | ack i members =>
    obtain ⟨rfl, hmembers⟩ := hmsg
    have hset : (s.set_member x { m with last_seen := some now }).get_member x = some { m with last_seen := some now } := by
      simp
    have hfirst : FirstService (s.set_member x { m with last_seen := some now }) := h.set_member h1
    have hack : (s.handle_message (.Ack x 1 members) src now).1 =
        members.foldl (merge_member now) (s.set_member x { m with last_seen := some now }) := by
      simp [handle_message, handle_ack, hm, hstate, h1]
    rw [hack]
    -- what the message says of `x` besides is not news
    rcases merge_members_adds hmembers hfirst x with hsame | ⟨hnone, -⟩
    · exact Seen.now_entry (hsame.trans hset) hstate (Nat.le_refl now)
    · rw [hset] at hnone
      cases hnone

/-- So is the moment a node comes into the view. -/
theorem seen_new (h : FirstService s) {msg : GossipMessage} (hmsg : FirstMessage msg)
    (hj : ∀ node, msg = .Join node → node.state = .Alive) (src : SocketAddr) (hnone : s.get_member x = none) {m : Node}
    (hm : (s.handle_message msg src now).1.get_member x = some m) : Seen (s.handle_message msg src now).1 x now now := by
  obtain ⟨node, hbrings, rfl, hstate⟩ := new_entry h hmsg hnone hm
  refine Seen.now_entry hm ?_ (Nat.le_refl now)
  by_cases hjoin : ∃ node, msg = .Join node
  · obtain ⟨node', rfl⟩ := hjoin
    cases hbrings
    rw [hj node rfl]
    decide
  · exact hstate fun node' h' => hjoin ⟨node', h'⟩

/-! ## From one contact to the next -/

def SeenBy (c : Cluster) (y x : NodeId) (t : Instant) : Prop := ∃ s, c.service y = some s ∧ Seen s x t c.now

theorem SeenBy.not_dead (h : c.SeenBy y x t) : c.holds y x ≠ some .Dead := by
  obtain ⟨s, hs, m, last, hm, hstate, -⟩ := h
  simp [holds, hs, hm, hstate]

theorem holds_some (h : c.holds y x ≠ none) : ∃ s m, c.service y = some s ∧ s.get_member x = some m := by
  obtain ⟨state, hstate⟩ := Option.ne_none_iff_exists'.1 h
  obtain ⟨s, hs, hm⟩ := Option.bind_eq_some_iff.1 hstate
  obtain ⟨m, hm, -⟩ := Option.map_eq_some_iff.1 hm
  exact ⟨s, m, hs, hm⟩

theorem now_step {e : Event} (hstep : c.step e = some c') : c.now ≤ c'.now := by
  obtain ⟨id, b, so, seeds, -, -, rfl⟩ | ⟨id, le, s, -, -, -, rfl⟩ | ⟨ms, -, rfl⟩ := step_cases hstep
  · exact Nat.le_refl c.now
  · exact Nat.le_refl c.now
  · exact Nat.le_add_right c.now ms

/-- When `y` hears `x`, it has seen `x` just then. -/
theorem hears_step {e : Event} (hstep : c.step e = some c') (hf : FirstIncarnation c) (hv : SelfView c)
    (hhears : Hears y x c e c')
    (hseen : c.holds y x ≠ none → c.SeenBy y x t) : c'.SeenBy y x c'.now := by
  obtain ⟨hknown, hwhy⟩ := hhears
  obtain ⟨s', m', hs', hm'⟩ := holds_some hknown
  obtain ⟨id, b, so, seeds, rfl, hid, rfl⟩ | ⟨id, le, s, rfl, hs, hen, rfl⟩ | ⟨ms, rfl, rfl⟩ := step_cases hstep
  · -- a start puts the node itself into its view
    have hnone : c.holds y x = none := by
      rcases hwhy with ⟨d, hd, -⟩ | hnone
      · cases hd
      · exact hnone
    by_cases hy : y = id
    · subst hy
      rw [update_service_self] at hs'
      cases hs'
      refine ⟨_, update_service_self .., ?_⟩
      simp only [get_member, MembershipService.new, DashMap.lookup_insert_eq, AList.lookup_empty] at hm'
      split at hm'
      · cases hm'
        rename_i hx
        refine ⟨_, c.now, (DashMap.lookup_insert_eq ..).trans (if_pos hx), ?_, rfl, Nat.le_refl _, Nat.le_refl _⟩
        simp
      · cases hm'
    · rw [update_service_of_ne c _ hy] at hs'
      simp [holds, hs', hm'] at hnone
  · by_cases hy : y = id
    · subst hy
      rw [update_service_self] at hs'
      cases hs'
      refine ⟨_, update_service_self .., ?_⟩
      have hfs := hf.service y s hs
      cases hx : s.get_member x with
      | none =>
        -- only a delivery brings a new member
        cases le with
        | gossip target => simp [react, hx] at hm'
        | tick => simp [react, get_failure_detection, hx] at hm'
        | deliver d =>
          have hsent := sent_of_enabled hen rfl
          exact seen_new hfs (hf.sent d hsent) (fun node hj => hv.joins d hsent node hj) d.src hx hm'
      | some m =>
        have hbefore : c.holds y x ≠ none := by simp [holds, hs, hx]
        obtain ⟨s₁, hs₁, hseen⟩ := hseen hbefore
        rw [hs] at hs₁
        cases hs₁
        -- a member it knows already is heard when it sends the message
        rcases hwhy with ⟨d, hd, hpeer⟩ | hnone
        · cases hd
          exact seen_peer hfs (hf.sent d (sent_of_enabled hen rfl)) hpeer d.src hseen
        · exact absurd hnone hbefore
    · rw [update_service_of_ne c _ hy] at hs'
      rcases hwhy with ⟨d, hd, -⟩ | hnone
      · cases hd
        exact absurd rfl hy
      · simp [holds, hs', hm'] at hnone
  · rcases hwhy with ⟨d, hd, -⟩ | hnone
    · cases hd
    · exact absurd hnone hknown

/-- Until the timeout no step but a contact makes a difference. -/
theorem seenBy_step {e : Event} (hstep : c.step e = some c') (hf : FirstIncarnation c) (hv : SelfView c)
    (htime : c.now ≤ t + DEAD_TIMEOUT) (h : c.SeenBy y x t) : c'.SeenBy y x t := by
  obtain ⟨s, hs, hseen⟩ := h
  obtain ⟨id, b, so, seeds, -, hid, rfl⟩ | ⟨id, le, s', -, hs', hen, rfl⟩ | ⟨ms, -, rfl⟩ := step_cases hstep
  · have hne : y ≠ id := by
      rintro rfl
      rw [hs] at hid
      cases hid
    exact ⟨s, by rw [update_service_of_ne c _ hne, hs], hseen⟩
  · by_cases hy : y = id
    · subst hy
      rw [hs] at hs'
      cases hs'
      refine ⟨_, update_service_self .., ?_⟩
      refine seen_react (hf.service y s hs) (fun d hd => hf.sent d (sent_of_enabled hen hd)) ?_ htime hseen
      exact fun d node hd hj => hv.joins d (sent_of_enabled hen hd) node hj
    · exact ⟨s, by rw [update_service_of_ne c _ hy, hs], hseen⟩
  · obtain ⟨m, last, hm, hstate, hlast, hsince, hpast⟩ := hseen
    exact ⟨s, hs, m, last, hm, hstate, hlast, hsince, Nat.le_trans hpast (Nat.le_add_right c.now ms)⟩

/-- The last time `y` heard `x` in the run, and that nothing has changed since. -/
structure LastHeard (y x : NodeId) (es : List Event) (c : Cluster) (c₂ : Cluster) : Prop where
  heard : ∃ es₁ e es₂ c₁, es = es₁ ++ e :: es₂ ∧ init.run es₁ = some c₁ ∧ c₁.step e = some c₂ ∧ Hears y x c₁ e c₂ ∧
    (∀ e' ∈ es₂, ¬ Contact y x e') ∧ c₂.run es₂ = some c
  seen : c.SeenBy y x c₂.now

theorem lastHeard_run {es rest : List Event} (htouch : InTouch T y x (es ++ rest)) (hrun : init.run es = some c) (hT : c.now ≤ T)
    (hknown : c.holds y x ≠ none) : ∃ c₂, LastHeard y x es c c₂ := by
  induction es using List.reverseRecOn generalizing rest c with
  | nil =>
    cases hrun
    exact absurd rfl hknown
  | append_singleton es e ih =>
    rw [run_append] at hrun
    obtain ⟨c₀, h₀, hone⟩ := Option.bind_eq_some_iff.1 hrun
    obtain ⟨c', hstep, hc'⟩ := Option.bind_eq_some_iff.1 hone
    cases hc'
    have hreach : Reachable c₀ := ⟨es, h₀⟩
    have hf := first_reachable hreach
    have hv := selfView_reachable hreach
    have hT₀ : c₀.now ≤ T := Nat.le_trans (now_step hstep) hT
    have htouch' : InTouch T y x (es ++ e :: rest) := by simpa using htouch
    have hbefore : c₀.holds y x ≠ none → ∃ c₂, LastHeard y x es c₀ c₂ := ih htouch' h₀ hT₀
    by_cases hwhy : Contact y x e ∨ c₀.holds y x = none
    · have hhears : Hears y x c₀ e c := ⟨hknown, hwhy⟩
      refine ⟨c, ⟨es, e, [], c₀, rfl, h₀, hstep, hhears, fun _ h => absurd h List.not_mem_nil, rfl⟩, ?_⟩
      by_cases hnone : c₀.holds y x = none
      · exact hears_step (t := 0) hstep hf hv hhears fun h => absurd hnone h
      · obtain ⟨c₂, -, hseen⟩ := hbefore hnone
        exact hears_step hstep hf hv hhears fun _ => hseen
    · rw [not_or] at hwhy
      obtain ⟨c₂, ⟨es₁, e₁, es₂, c₁, rfl, h₁, hstep₁, hhears, hquiet, hrest⟩, hseen⟩ := hbefore hwhy.2
      have htime : c₀.now ≤ c₂.now + DEAD_TIMEOUT :=
        htouch' es₁ e₁ es₂ (e :: rest) c₁ c₂ c₀ (by simp) h₁ hstep₁ hhears hquiet hrest hT₀
      refine ⟨c₂, ⟨es₁, e₁, es₂ ++ [e], c₁, by simp, h₁, hstep₁, hhears, ?_, ?_⟩, seenBy_step hstep hf hv htime hseen⟩
      · intro e' he'
        rcases List.mem_append.1 he' with he' | he'
        · exact hquiet e' he'
        · rw [List.mem_singleton.1 he']
          exact hwhy.1
      · rw [run_append, hrest]
        exact hone

/-- While `y` hears `x` in time, no state of the run has `x` as `Dead` in the view of `y`. -/
theorem no_false_death {es : List Event} (htouch : InTouch T y x es) :
    ∀ es₁ es₂ c₁, es = es₁ ++ es₂ → init.run es₁ = some c₁ → c₁.now ≤ T → c₁.holds y x ≠ some .Dead := by
  rintro es₁ es₂ c₁ rfl hrun hT hdead
  have hknown : c₁.holds y x ≠ none := by rw [hdead]; simp
  obtain ⟨c₂, -, hseen⟩ := lastHeard_run htouch hrun hT hknown
  exact hseen.not_dead hdead

section Visit

theorem now_run {es : List Event} (hrun : c.run es = some c') : c.now ≤ c'.now := by
  induction es generalizing c with
  | nil =>
    cases hrun
    exact Nat.le_refl _
  | cons e es ih =>
    obtain ⟨c₁, hstep, hrest⟩ := Option.bind_eq_some_iff.1 hrun
    exact Nat.le_trans (now_step hstep) (ih hrest)

/-- One contact in time is enough for two timeouts. -/
theorem inTouch_of_contact {es₁ es₂ : List Event} {e : Event} (hcontact : Contact y x e) (hrun : init.run es₁ = some c)
    (htime : c.now ≤ DEAD_TIMEOUT) : InTouch (c.now + DEAD_TIMEOUT) y x (es₁ ++ e :: es₂) := by
  intro fs₁ f fs₂ fs₃ c₁ c₂ c₃ hsplit h₁ hstep hhears hquiet h₃ hT
  have later : ∀ fs, es₁ ++ fs = fs₁ → c₃.now ≤ c₂.now + DEAD_TIMEOUT := by
    rintro fs rfl
    rw [run_append, hrun] at h₁
    have hle : c.now ≤ c₂.now := Nat.le_trans (now_run h₁) (now_step hstep)
    exact Nat.le_trans hT (Nat.add_le_add_right hle DEAD_TIMEOUT)
  have earlier : ∀ fs, es₁ = fs₁ ++ f :: (fs₂ ++ fs) → c₃.now ≤ c₂.now + DEAD_TIMEOUT := by
    rintro fs rfl
    rw [run_append, h₁, Option.bind_some, run, hstep, Option.bind_some, run_append, h₃] at hrun
    exact Nat.le_trans (now_run hrun) (Nat.le_trans htime (Nat.le_add_left _ _))
  rcases List.append_eq_append_iff.1 hsplit with ⟨fs, hfs, -⟩ | ⟨fs, rfl, hrest⟩
  · exact later fs hfs.symm
  · cases fs with
    | nil => exact later [] (by simp)
    | cons f' fs =>
      rw [List.cons_append, List.cons.injEq] at hrest
      obtain ⟨rfl, htail⟩ := hrest
      rcases List.append_eq_append_iff.1 htail with ⟨gs, rfl, -⟩ | ⟨gs, rfl, hgs⟩
      · exact earlier gs rfl
      · cases gs with
        | nil => exact earlier [] (by simp)
        | cons g gs =>
          -- the contact is among the events said to be none
          obtain ⟨rfl, -⟩ := List.cons.inj hgs
          exact absurd hcontact (hquiet _ (List.mem_append_right _ List.mem_cons_self))

/-- `silent` joins and answers a `Ping` nine seconds later. -/
def answered : List Event :=
  [.start observer (loopback 5000) (loopback 5000) [],
    .start silent (loopback 5001) (loopback 5001) [loopback 5000],
    .node observer (.deliver ⟨loopback 5001, loopback 5000, .Join ⟨silent, loopback 5001, loopback 6001, .Alive, 1, none⟩⟩),
    .node observer (.gossip ⟨silent, loopback 5001, loopback 6001, .Alive, 1, some 0⟩),
    .elapse 9000,
    .node silent (.deliver ⟨loopback 5000, loopback 5001, .Ping observer 1⟩)]

/-- What it answers. -/
def answer : Datagram :=
  ⟨loopback 5001, loopback 5000, .Ack silent 1
    (((init.run answered).bind fun c => c.service silent).elim [] fun s => s.members.values.map Node.on_wire)⟩

def answer_event : Event := .node observer (.deliver answer)

def answered_state : Cluster := (init.run answered).get (by decide)

/-- Another nine seconds later `silent` is a suspect and not yet `Dead`. -/
def visited : Cluster := (init.run (answered ++ answer_event :: [.elapse 9000, .node observer .tick])).get (by decide)

theorem visited_not_dead : visited.holds observer silent ≠ some .Dead := by
  have hrun : init.run answered = some answered_state := by simp [answered_state]
  have hcontact : Contact observer silent answer_event := ⟨answer, rfl, .ack ..⟩
  have htouch : InTouch _ _ _ (answered ++ answer_event :: [.elapse 9000, .node observer .tick]) :=
    inTouch_of_contact hcontact hrun (by decide)
  exact no_false_death htouch _ [] visited (List.append_nil _).symm (by simp [visited]) (by decide)

end Visit

end Cluster
