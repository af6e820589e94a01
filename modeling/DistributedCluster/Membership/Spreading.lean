import DistributedCluster.Lib.Spreading
import DistributedCluster.Membership.LateJoin
/-!
# How membership spreads

A `Ping` makes its sender known, and the `Ack` brings whom its receiver knows. So in
a round in which every node pings whom it knows and hears the answer, what is known
reaches twice as far as before.
-/

namespace Cluster

open MembershipService

variable {c c' : Cluster} {x y z : NodeId} {s : MembershipService} {now : Instant} {es : List Event}

/-! ## What is known stays known -/

theorem react_knows (h : FirstService s) (now : Instant) {e : LocalEvent} (he : ∀ d, e = .deliver d → FirstMessage d.msg)
    (hx : s.get_member x ≠ none) : (s.react now e).1.get_member x ≠ none := by
  cases e with
  | gossip target => exact hx
  | tick =>
    rw [react, get_failure_detection]
    simp only [ne_eq, Option.map_eq_none_iff]
    exact hx
  | deliver d =>
    obtain ⟨m, hm⟩ := Option.ne_none_iff_exists'.1 hx
    have hr := reaction h (he d rfl) d.src now x
    rw [hm] at hr
    unfold react
    generalize (s.handle_message d.msg d.src now).1.get_member x = after at hr
    cases hr <;> simp

theorem knows_step {e : Event} (hf : FirstIncarnation c) (hstep : c.step e = some c') (h : c.holds y x ≠ none) :
    c'.holds y x ≠ none := by
  simp only [holds, ne_eq, Option.bind_eq_none_iff, not_forall, Option.map_eq_none_iff] at h ⊢
  obtain ⟨s, hs, hx⟩ := h
  obtain ⟨id, b, so, seeds, -, hid, rfl⟩ | ⟨id, le, s', -, hs', hen, rfl⟩ | ⟨ms, -, rfl⟩ := step_cases hstep
  · have hne : y ≠ id := by
      rintro rfl
      rw [hs] at hid
      cases hid
    exact ⟨s, (update_service_of_ne c _ hne).trans hs, hx⟩
  · by_cases hy : y = id
    · subst hy
      rw [hs] at hs'
      cases hs'
      exact ⟨_, update_service_self .., react_knows (hf.service y s hs) c.now
        (fun d hd => hf.sent d (sent_of_enabled hen hd)) hx⟩
    · exact ⟨s, (update_service_of_ne c _ hy).trans hs, hx⟩
  · exact ⟨s, hs, hx⟩

theorem first_run (hf : FirstIncarnation c) (hrun : c.run es = some c') : FirstIncarnation c' := by
  have hstep : ∀ c e c', True → Cluster.step c e = some c' → FirstIncarnation c → FirstIncarnation c' :=
    fun _ _ _ _ h hf => first_step h hf
  exact run_induction hstep (fun _ _ => trivial) hf hrun

theorem knows_run (hf : FirstIncarnation c) (hrun : c.run es = some c') (h : c.holds y x ≠ none) : c'.holds y x ≠ none := by
  induction es generalizing c with
  | nil =>
    cases hrun
    exact h
  | cons e es ih =>
    obtain ⟨c₁, hstep, hrest⟩ := Option.bind_eq_some_iff.1 hrun
    exact ih (first_step hstep hf) hrest (knows_step hf hstep h)

/-! ## What a ping and its answer bring -/

theorem ping_introduces (s : MembershipService) (sender : NodeId) (i : UInt64) (src : SocketAddr) (now : Instant) :
    (s.handle_ping sender i src now).1.get_member sender ≠ none := by
  unfold handle_ping
  split <;> simp

/-- The answer to a ping lists everyone who is known. -/
theorem answer_lists {s : MembershipService} {p d : Datagram} {sender : NodeId} {i : UInt64} (h : FirstService s)
    (hp : p.msg = .Ping sender i) (hfirst : FirstMessage p.msg) (hd : d ∈ (s.react now (.deliver p)).2) {m : Node}
    (hm : s.get_member x = some m) (hid : m.id = x) :
    ∃ members, d.msg = .Ack s.local_id 1 members ∧ (∀ m ∈ members, m.incarnation = 1) ∧
      ∃ m' ∈ members, m'.id = x ∧ m'.state = m.state := by
  rw [hp] at hfirst
  obtain rfl : i = 1 := hfirst
  have hone : FirstMessage (.Ping sender 1) := rfl
  obtain ⟨hafter, hsent⟩ := first_handle_message h hone p.src now
  have hlocal : (s.handle_ping sender 1 p.src now).1.local_id = s.local_id :=
    (handle_message_sameNode s (.Ping sender 1) p.src now).local_id
  have hreply : d ∈ (s.handle_ping sender 1 p.src now).2 := by
    simpa only [react, handle_message, hp] using hd
  have hinc := hsent d hreply
  rw [handle_ping_reply hafter, List.mem_singleton] at hreply
  subst hreply
  refine ⟨_, by rw [send, hlocal], hinc.2, ?_⟩
  have hr := reaction h hone p.src now x
  rw [hm] at hr
  generalize hx : (s.handle_message (.Ping sender 1) p.src now).1.get_member x = after at hr
  cases hr with
  | kept => exact ⟨m.on_wire, List.mem_map_of_mem (mem_values.2 ⟨x, hx⟩), hid, rfl⟩
  | heard => exact ⟨_, List.mem_map_of_mem (mem_values.2 ⟨x, hx⟩), hid, rfl⟩
  | joined _ _ hmsg => cases hmsg

theorem merge_knows {members : List Node} {s : MembershipService} {m : Node} (hm : m ∈ members) (hstate : m.state ≠ .Dead)
    (hinc : ∀ m ∈ members, m.incarnation = 1) (h : FirstService s) :
    (members.foldl (merge_member now) s).get_member m.id ≠ none := by
  induction members generalizing s with
  | nil => exact absurd hm List.not_mem_nil
  | cons m' ms ih =>
    have hrest : ∀ m ∈ ms, m.incarnation = 1 := fun m hm => hinc m (List.mem_cons_of_mem _ hm)
    have hmerged := h.merge_member now (hinc m' List.mem_cons_self)
    rw [List.foldl_cons]
    rcases List.mem_cons.1 hm with rfl | hm
    · -- whoever is known by now is kept by the rest
      have hknown : (merge_member now s m).get_member m.id ≠ none := by
        unfold merge_member
        split
        · rename_i existing he
          repeat' split
          all_goals simp [he]
        · rw [if_neg hstate]
          simp
      rcases @merge_members_adds now ms hrest _ hmerged m.id with hsame | ⟨hnone, -⟩
      · rw [hsame]
        exact hknown
      · exact absurd hnone hknown
    · exact ih hm hrest hmerged

theorem ack_merges {s : MembershipService} {members : List Node} {sender : NodeId} {m : Node} (h : FirstService s)
    (hinc : ∀ m ∈ members, m.incarnation = 1) (hsender : ∀ m, s.get_member sender = some m → m.state ≠ .Dead)
    (hm : m ∈ members) (hstate : m.state ≠ .Dead) : (s.handle_ack sender 1 members now).get_member m.id ≠ none := by
  unfold handle_ack
  split
  · rename_i member hmember
    rw [if_neg (hsender member hmember)]
    have h1 := h.2 _ _ hmember
    exact merge_knows hm hstate hinc (h.set_member (by simp [h1]))
  · exact merge_knows hm hstate hinc h

/-! ## Rounds -/

/-- Nobody is a suspect, let alone `Dead`. -/
def Healthy (c : Cluster) : Prop := ∀ y x, c.holds y x ≠ none → c.holds y x = some .Alive

def StaysHealthy (c : Cluster) (es : List Event) : Prop :=
  ∀ es₁ es₂ c₁, es = es₁ ++ es₂ → c.run es₁ = some c₁ → c₁.Healthy

/-- In the run, a ping of `y` arrives at `z`, and then the answer to it at `y`. -/
def Exchange (c : Cluster) (y z : NodeId) (es : List Event) : Prop :=
  ∃ es₁ p es₂ d es₃ c₁ s i, es = es₁ ++ .node z (.deliver p) :: (es₂ ++ .node y (.deliver d) :: es₃) ∧
    p.msg = .Ping y i ∧ c.run es₁ = some c₁ ∧ c₁.service z = some s ∧ d ∈ (s.react c₁.now (.deliver p)).2

/-- Everyone exchanges with whom he knows at the beginning. -/
def Round (c : Cluster) (es : List Event) : Prop := ∀ y z, y ≠ z → c.holds y z = some .Alive → c.Exchange y z es

inductive Rounds (c : Cluster) : Nat → Cluster → Prop
  | none : Rounds c 0 c
  | next {n c₁ es c'} (before : Rounds c n c₁) (round : c₁.Round es) (healthy : c₁.StaysHealthy es)
      (run : c₁.run es = some c') : Rounds c (n + 1) c'

/-- What a delivery does. -/
theorem deliver_step {d : Datagram} (h : c.step (.node y (.deliver d)) = some c') :
    ∃ s, c.service y = some s ∧ d ∈ c.sent ∧ c' = c.update y (s.handle_message d.msg d.src c.now) := by
  obtain ⟨_, _, _, _, he, -⟩ | ⟨id, le, s, he, hs, hen, rfl⟩ | ⟨_, he, -⟩ := step_cases h
  · cases he
  · cases he
    exact ⟨s, hs, sent_of_enabled hen rfl, rfl⟩
  · cases he

theorem holds_update (c : Cluster) (y x : NodeId) (r : MembershipService × List Datagram) :
    (c.update y r).holds y x = (r.1.get_member x).map Node.state := by
  rw [holds, update_service_self, Option.bind_some]

theorem exchange_effect (h : Reachable c) (hhealthy : c.StaysHealthy es) (hrun : c.run es = some c')
    (hknown : c.holds y z ≠ none) (hexchange : c.Exchange y z es) :
    c'.holds z y ≠ none ∧ ∀ x, c.holds z x ≠ none → c'.holds y x ≠ none := by
  obtain ⟨es₁, p, es₂, d, es₃, c₁, s, i, rfl, hp, h₁, hs, hd⟩ := hexchange
  obtain ⟨c₁', h₁', hrest⟩ := run_split hrun
  obtain rfl : c₁ = c₁' := Option.some.inj (h₁.symm.trans h₁')
  obtain ⟨c₂, hping, hrest⟩ := run_cons hrest
  obtain ⟨c₃, h₃, hrest⟩ := run_split hrest
  obtain ⟨c₄, hack, hrest⟩ := run_cons hrest
  have hr₁ := reachable_run h h₁
  have hf₁ := first_reachable hr₁
  have hf₂ := first_step hping hf₁
  have hf₃ := first_run hf₂ h₃
  have hf₄ := first_step hack hf₃
  obtain ⟨s', hs', hsent, rfl⟩ := deliver_step hping
  obtain rfl : s = s' := Option.some.inj (hs.symm.trans hs')
  obtain ⟨s₃, hs₃, hsent₃, rfl⟩ := deliver_step hack
  constructor
  · have hnew : (c₁.update z (s.handle_message p.msg p.src c₁.now)).holds z y ≠ none := by
      rw [holds_update, hp, ne_eq, Option.map_eq_none_iff]
      exact ping_introduces s y i p.src c₁.now
    exact knows_run hf₄ hrest (knows_step hf₃ hack (knows_run hf₂ h₃ hnew))
  · intro x hx
    refine knows_run hf₄ hrest ?_
    -- at the time of the ping `z` holds `x` as `Alive`
    have halive := hhealthy es₁ _ c₁ rfl h₁ z x (knows_run (first_reachable h) h₁ hx)
    rw [holds, hs, Option.bind_some, Option.map_eq_some_iff] at halive
    obtain ⟨m, hm, hstate⟩ := halive
    have hid := ((selfView_reachable hr₁).entries z s hs x m hm).1
    obtain ⟨members, hmsg, hinc, m', hm', rfl, hstate'⟩ :=
      answer_lists (hf₁.service z s hs) hp (hf₁.sent p hsent) hd hm hid
    rw [(selfView_reachable hr₁).local_id z s hs] at hmsg
    -- and `y` still does not hold `z` as `Dead`
    have hprefix : c.run (es₁ ++ .node z (.deliver p) :: es₂) = some c₃ := by
      rw [run_append, h₁, Option.bind_some, run, hping, Option.bind_some, h₃]
    have hz := hhealthy (es₁ ++ .node z (.deliver p) :: es₂) (.node y (.deliver d) :: es₃) c₃ (by simp) hprefix y z
      (knows_run (first_reachable h) hprefix hknown)
    rw [holds, hs₃, Option.bind_some, Option.map_eq_some_iff] at hz
    obtain ⟨mz, hmz, hzstate⟩ := hz
    rw [holds_update, hmsg, ne_eq, Option.map_eq_none_iff]
    refine ack_merges (hf₃.service y s₃ hs₃) hinc ?_ hm' ?_
    · intro m'' hm''
      obtain rfl := Option.some.inj (hmz.symm.trans hm'')
      rw [hzstate]
      decide
    · rw [hstate', hstate]
      decide

/-- Who knows whom. -/
def peers (c : Cluster) : SimpleGraph NodeId where
  Adj y z := y ≠ z ∧ (c.holds y z = some .Alive ∨ c.holds z y = some .Alive)
  symm := ⟨fun _ _ h => ⟨h.1.symm, h.2.symm⟩⟩
  loopless := ⟨fun _ h => h.1 rfl⟩

theorem Rounds.reachable {n : Nat} (h : Reachable c) (hrounds : Rounds c n c') : Reachable c' := by
  induction hrounds with
  | none => exact h
  | next _ _ _ hrun ih => exact reachable_run ih hrun

theorem StaysHealthy.last (h : c.StaysHealthy es) (hrun : c.run es = some c') : c'.Healthy :=
  h es [] c' (by simp) hrun

/-- After one round and `n` more, everyone knows everyone within distance `2 ^ n`. -/
theorem gossip_spreads (h : Reachable c) {n : Nat} (hrounds : Rounds c (n + 1) c') (w : c.peers.Walk y x) (hne : y ≠ x)
    (hlength : w.length ≤ 2 ^ n) : c'.holds y x = some .Alive := by
  have hpos : 0 < w.length := Nat.pos_of_ne_zero fun hzero => hne (SimpleGraph.Walk.eq_of_length_eq_zero hzero)
  refine Spreading.of_walk (K := fun i a b => ∀ c', Rounds c (i + 1) c' → c'.holds a b = some .Alive)
    ?_ ?_ ?_ w hpos hlength c' hrounds
  · rintro a b ⟨hab, hknown⟩ c' (_ | ⟨before, round, healthy, run⟩)
    cases before
    rcases hknown with hknown | hknown
    · exact healthy.last run a b (knows_run (first_reachable h) run (by simp [hknown]))
    · have heffect := exchange_effect h healthy run (by simp [hknown]) (round b a hab.symm hknown)
      exact healthy.last run a b heffect.1
  · rintro i a b ih c' (_ | ⟨before, round, healthy, run⟩)
    have hreach := before.reachable h
    exact healthy.last run a b (knows_run (first_reachable hreach) run (by simp [ih _ before]))
  · rintro i a b d hab hbd c' (_ | ⟨before, round, healthy, run⟩)
    have hreach := before.reachable h
    have hb := hab _ before
    have hd := hbd _ before
    by_cases heq : a = b
    · subst heq
      exact healthy.last run a d (knows_run (first_reachable hreach) run (by simp [hd]))
    · have heffect := exchange_effect hreach healthy run (by simp [hb]) (round a b heq hb)
      exact healthy.last run a d (heffect.2 d (by simp [hd]))

section Chain

/-- Who starts in a run. -/
def starting (es : List Event) : List NodeId :=
  es.filterMap fun
    | .start id _ _ _ => some id
    | _ => none

theorem started_run (hrun : c.run es = some c') (h : c'.Started x) : c.Started x ∨ x ∈ starting es := by
  induction es generalizing c with
  | nil =>
    cases hrun
    exact .inl h
  | cons e es ih =>
    obtain ⟨c₁, hstep, hrest⟩ := run_cons hrun
    have hlater : ∀ {e}, x ∈ starting es → x ∈ starting (e :: es) := by
      intro e hx
      simp only [starting, List.filterMap_cons]
      split
      · exact hx
      · exact List.mem_cons_of_mem _ hx
    rcases ih hrest with ⟨s, hs⟩ | hx
    · obtain ⟨id, b, so, seeds, rfl, -, rfl⟩ | ⟨id, le, s', rfl, hs', -, rfl⟩ | ⟨ms, rfl, rfl⟩ := step_cases hstep
      · by_cases hid : x = id
        · subst hid
          exact .inr (by simp [starting])
        · rw [update_service_of_ne c _ hid] at hs
          exact .inl ⟨s, hs⟩
      · by_cases hid : x = id
        · subst hid
          exact .inl ⟨s', hs'⟩
        · rw [update_service_of_ne c _ hid] at hs
          exact .inl ⟨s, hs⟩
      · exact .inl ⟨s, hs⟩
    · exact .inr (hlater hx)

/-- `y` pings `z`, whose answer arrives. -/
def talk (c : Cluster) (y z : NodeId) : Option (List Event) := do
  let s ← c.service y
  let target ← s.get_member z
  let asked ← c.step (.node y (.gossip target))
  let s' ← asked.service z
  let d ← (s'.react asked.now (.deliver (s.ping target))).2.head?
  return [.node y (.gossip target), .node z (.deliver (s.ping target)), .node y (.deliver d)]

/-- One talk after the other. -/
def talks (c : Cluster) : List (NodeId × NodeId) → Option (List Event)
  | [] => some []
  | (y, z) :: pairs => do
    let es ← c.talk y z
    let c' ← c.run es
    return es ++ (← c'.talks pairs)

theorem talk_exchange (h : Reachable c) (hes : c.talk y z = some es) : c.Exchange y z es := by
  simp only [talk, Option.bind_eq_bind, Option.bind_eq_some_iff, Option.pure_def, Option.some.injEq] at hes
  obtain ⟨s, hs, target, -, asked, hasked, s', hs', d, hd, rfl⟩ := hes
  have hone : c.run [.node y (.gossip target)] = some asked := by rw [run, hasked]; rfl
  have hid : s.local_id = y := (selfView_reachable h).local_id y s hs
  exact ⟨[.node y (.gossip target)], s.ping target, [], d, [], asked, s', s.incarnation, rfl, by rw [← hid]; rfl, hone, hs',
    List.mem_of_mem_head? hd⟩

theorem Exchange.append_right (h : c.Exchange y z es) (es' : List Event) : c.Exchange y z (es ++ es') := by
  obtain ⟨es₁, p, es₂, d, es₃, c₁, s, i, rfl, hp, h₁, hs, hd⟩ := h
  exact ⟨es₁, p, es₂, d, es₃ ++ es', c₁, s, i, by simp, hp, h₁, hs, hd⟩

theorem Exchange.append_left {es₀ : List Event} (h : c'.Exchange y z es) (hrun : c.run es₀ = some c') :
    c.Exchange y z (es₀ ++ es) := by
  obtain ⟨es₁, p, es₂, d, es₃, c₁, s, i, rfl, hp, h₁, hs, hd⟩ := h
  refine ⟨es₀ ++ es₁, p, es₂, d, es₃, c₁, s, i, by simp, hp, ?_, hs, hd⟩
  rw [run_append, hrun, Option.bind_some, h₁]

theorem talks_exchange {pairs : List (NodeId × NodeId)} (h : Reachable c) (hes : c.talks pairs = some es)
    (hmem : (y, z) ∈ pairs) : c.Exchange y z es := by
  induction pairs generalizing c es with
  | nil => cases hmem
  | cons pair pairs ih =>
    obtain ⟨a, b⟩ := pair
    simp only [talks, Option.bind_eq_bind, Option.bind_eq_some_iff, Option.pure_def, Option.some.injEq] at hes
    obtain ⟨es₁, htalk, c₁, hrun, es₂, hrest, rfl⟩ := hes
    rcases List.mem_cons.1 hmem with hpair | hmem
    · cases hpair
      exact (talk_exchange h htalk).append_right es₂
    · exact (ih (reachable_run h hrun) hrest hmem).append_left hrun

/-- Nobody else is in a view. -/
theorem within_of_holds {ids : List NodeId} (h : Reachable c) (hids : ∀ x, c.Started x → x ∈ ids) (hes : starting es = [])
    (hrun : c.run es = some c') (hknown : c'.holds y x ≠ none) : y ∈ ids ∧ x ∈ ids := by
  have hstarted : ∀ {id}, c'.Started id → id ∈ ids := by
    intro id hid
    rcases started_run hrun hid with hid | hid
    · exact hids id hid
    · rw [hes] at hid
      exact absurd hid List.not_mem_nil
  simp only [holds, ne_eq, Option.bind_eq_none_iff, not_forall, Option.map_eq_none_iff] at hknown
  obtain ⟨s, hs, hx⟩ := hknown
  obtain ⟨m, hm⟩ := Option.ne_none_iff_exists'.1 hx
  exact ⟨hstarted ⟨s, hs⟩, hstarted ((selfView_reachable (reachable_run h hrun)).entries y s hs x m hm).2⟩

/-- Nobody is a suspect on the way, as far as it shows at `ids`. -/
def healthyAmong (c : Cluster) (ids : List NodeId) (es : List Event) : Bool :=
  es.inits.all fun fs => starting fs = [] ∧
    ∀ y ∈ ids, ∀ x ∈ ids, (c.run fs).bind (fun c' => c'.holds y x) ∈ [none, some NodeState.Alive]

theorem StaysHealthy.of_among {ids : List NodeId} (h : Reachable c) (hids : ∀ x, c.Started x → x ∈ ids)
    (hall : c.healthyAmong ids es = true) : c.StaysHealthy es := by
  intro es₁ es₂ c₁ hes hrun y x hknown
  have hprefix : es₁ ∈ es.inits := (List.mem_inits es₁ es).2 ⟨es₂, hes.symm⟩
  obtain ⟨hstart, hviews⟩ := of_decide_eq_true (List.all_eq_true.1 hall es₁ hprefix)
  obtain ⟨hy, hx⟩ := within_of_holds h hids hstart hrun hknown
  have hone := hviews y hy x hx
  rw [hrun, Option.bind_some, List.mem_cons, List.mem_singleton] at hone
  exact hone.resolve_left hknown

theorem Round.of_talks {ids : List NodeId} {pairs : List (NodeId × NodeId)} (h : Reachable c)
    (hids : ∀ x, c.Started x → x ∈ ids) (hes : c.talks pairs = some es)
    (hall : ∀ y ∈ ids, ∀ z ∈ ids, y ≠ z → c.holds y z = some .Alive → (y, z) ∈ pairs) : c.Round es := by
  intro y z hne hknown
  obtain ⟨hy, hz⟩ := within_of_holds h hids (rfl : starting [] = []) (rfl : c.run [] = some c) (by simp [hknown] : c.holds y z ≠ none)
  exact talks_exchange h hes (hall y hy z hz hne hknown)

def third : NodeId := ⟨"third"⟩

/-- `silent` and `third` have joined at `observer`, which knows them by now. -/
def gathering : List Event :=
  silence.take 3 ++ [.start third (loopback 5002) (loopback 5002) [loopback 5000],
    .node observer (.deliver ⟨loopback 5002, loopback 5000, .Join ⟨third, loopback 5002, loopback 6002, .Alive, 1, none⟩⟩)]

def gathered : Cluster := (init.run gathering).get (by decide)

theorem gathered_reachable : Reachable gathered := ⟨gathering, by simp [gathered]⟩

def everyone : List NodeId := [observer, silent, third]

theorem started_gathered (h : gathered.Started x) : x ∈ everyone := by
  have hrun : init.run gathering = some gathered := by simp [gathered]
  rcases started_run hrun h with ⟨s, hs⟩ | hx
  · cases hs
  · exact hx

/-- Only `observer` knows whom to ping. -/
def first_round : List Event := (gathered.talks [(observer, silent), (observer, third)]).get (by decide +kernel)

def introduced : Cluster := (gathered.run first_round).get (by decide +kernel)

def second_round : List Event :=
  (introduced.talks [(observer, silent), (observer, third), (silent, observer), (third, observer)]).get (by decide +kernel)

def acquainted : Cluster := (introduced.run second_round).get (by decide +kernel)

theorem talks_first_round : gathered.talks [(observer, silent), (observer, third)] = some first_round := by
  simp [first_round]

theorem run_first_round : gathered.run first_round = some introduced := by simp [introduced]

theorem talks_second_round :
    introduced.talks [(observer, silent), (observer, third), (silent, observer), (third, observer)] = some second_round := by
  simp [second_round]

theorem run_second_round : introduced.run second_round = some acquainted := by simp [acquainted]

theorem introduced_reachable : Reachable introduced := reachable_run gathered_reachable run_first_round

theorem started_introduced (h : introduced.Started x) : x ∈ everyone := by
  rcases started_run run_first_round h with h | h
  · exact started_gathered h
  · rw [show starting first_round = [] by decide +kernel] at h
    exact absurd h List.not_mem_nil

theorem first_round_round : gathered.Round first_round :=
  .of_talks gathered_reachable (fun _ => started_gathered) talks_first_round (by decide +kernel)

theorem first_round_healthy : gathered.StaysHealthy first_round :=
  .of_among gathered_reachable (fun _ => started_gathered) (by decide +kernel)

theorem second_round_round : introduced.Round second_round :=
  .of_talks introduced_reachable (fun _ => started_introduced) talks_second_round (by decide +kernel)

theorem second_round_healthy : introduced.StaysHealthy second_round :=
  .of_among introduced_reachable (fun _ => started_introduced) (by decide +kernel)

/-- Two who know only the one they joined at know each other after two rounds. -/
theorem gossip_spreads_across :
    gathered.holds silent third = none ∧ introduced.holds silent third = none ∧
      acquainted.holds silent third = some .Alive := by
  have hfirst : gathered.peers.Adj silent observer := ⟨by decide, .inr (by decide +kernel)⟩
  have hsecond : gathered.peers.Adj observer third := ⟨by decide, .inl (by decide +kernel)⟩
  refine ⟨by decide +kernel, by decide +kernel, ?_⟩
  exact gossip_spreads (n := 1) gathered_reachable
    (.next (.next .none first_round_round first_round_healthy run_first_round) second_round_round second_round_healthy
      run_second_round) (.cons hfirst hsecond.toWalk) (by decide) (by simp)

end Chain

end Cluster
