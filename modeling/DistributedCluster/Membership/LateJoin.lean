import DistributedCluster.Membership.Refutation
import DistributedCluster.Membership.SelfView
/-!
# A late `Join`

What a view says of a peer does not go back: incarnations do not decrease and
`Dead` is final, except that a `Join` overwrites whatever entry there is. One
that arrives late, or a second time, makes a `Dead` peer `Alive` again.
-/

namespace Cluster

open MembershipService

/-- What `y` says of `x` did not go back from `c` to `c'`. -/
def NoRegress (c c' : Cluster) (y x : NodeId) : Prop :=
  ∀ s m, c.service y = some s → s.get_member x = some m →
    ∃ s' m', c'.service y = some s' ∧ s'.get_member x = some m' ∧ m.incarnation ≤ m'.incarnation ∧
      (m.state = .Dead → m'.state = .Dead)

/-- The event delivers a `Join` of `x` to `y` while `y` holds `x` as `Dead`. -/
def Revives (c : Cluster) (y x : NodeId) (e : Event) : Prop :=
  c.holds y x = some .Dead ∧ ∃ d node, e = .node y (.deliver d) ∧ d.msg = .Join node ∧ node.id = x

/-- Between no two moments of the run does what `y` says of `x` go back. -/
def NeverRegresses (c : Cluster) (y x : NodeId) (es : List Event) : Prop :=
  ∀ es₁ es₂ es₃ c₁ c₂, es = es₁ ++ (es₂ ++ es₃) → c.run es₁ = some c₁ → c₁.run es₂ = some c₂ → NoRegress c₁ c₂ y x

def NeverRevived (c : Cluster) (y x : NodeId) (es : List Event) : Prop :=
  ∀ es₁ e es₂ c₁, es = es₁ ++ e :: es₂ → c.run es₁ = some c₁ → ¬ Revives c₁ y x e

theorem run_append (c : Cluster) (es₁ es₂ : List Event) :
    c.run (es₁ ++ es₂) = (c.run es₁).bind fun c₁ => c₁.run es₂ := by
  induction es₁ generalizing c with
  | nil => rfl
  | cons e es ih =>
    rw [List.cons_append, run, run, Option.bind_assoc]
    exact congrArg _ (funext ih)

theorem reachable_run {c c' : Cluster} {es : List Event} (h : Reachable c) (hrun : c.run es = some c') : Reachable c' := by
  obtain ⟨es₀, h₀⟩ := h
  exact ⟨es₀ ++ es, by rw [run_append, h₀]; exact hrun⟩

theorem run_cons {c c' : Cluster} {e : Event} {es : List Event} (h : c.run (e :: es) = some c') : ∃ c₁, c.step e = some c₁ ∧ c₁.run es = some c' :=
  Option.bind_eq_some_iff.1 h

theorem run_split {c c' : Cluster} {es₁ es₂ : List Event} (h : c.run (es₁ ++ es₂) = some c') :
    ∃ c₁, c.run es₁ = some c₁ ∧ c₁.run es₂ = some c' := by
  rw [run_append] at h
  exact Option.bind_eq_some_iff.1 h

theorem NoRegress.refl (c : Cluster) (y x : NodeId) : NoRegress c c y x :=
  fun s m hs hm => ⟨s, m, hs, hm, UInt64.le_refl _, id⟩

theorem NoRegress.trans {c₁ c₂ c₃ : Cluster} {y x : NodeId} (h₁ : NoRegress c₁ c₂ y x) (h₂ : NoRegress c₂ c₃ y x) :
    NoRegress c₁ c₃ y x := by
  intro s m hs hm
  obtain ⟨s', m', hs', hm', hle, hdead⟩ := h₁ s m hs hm
  obtain ⟨s'', m'', hs'', hm'', hle', hdead'⟩ := h₂ s' m' hs' hm'
  exact ⟨s'', m'', hs'', hm'', UInt64.le_trans hle hle', fun h => hdead' (hdead h)⟩

theorem NoRegress.dead {c c' : Cluster} {y x : NodeId} (h : NoRegress c c' y x) (hd : c.holds y x = some .Dead) :
    c'.holds y x = some .Dead := by
  obtain ⟨s, hs, hm⟩ := Option.bind_eq_some_iff.1 hd
  obtain ⟨m, hm, hst⟩ := Option.map_eq_some_iff.1 hm
  obtain ⟨s', m', hs', hm', -, hdead⟩ := h s m hs hm
  simp [holds, hs', hm', hdead hst]

theorem detect_dead (local_id : NodeId) (now : Instant) {m : Node} (h : m.state = .Dead) :
    (detect local_id now m).state = .Dead := by
  rw [detect, if_pos (.inr h)]
  exact h

/-- With nothing but first incarnations around, an event that is no `Join` of a
`Dead` peer keeps the peer's entry, and keeps it `Dead`. -/
theorem react_keeps {s : MembershipService} (h : FirstService s) (now : Instant) {e : LocalEvent}
    (he : ∀ d, e = .deliver d → FirstMessage d.msg) {x : NodeId} {m : Node} (hm : s.get_member x = some m)
    (hj : m.state = .Dead → ∀ d node, e = .deliver d → d.msg = .Join node → node.id ≠ x) :
    ∃ m', (s.react now e).1.get_member x = some m' ∧ (m.state = .Dead → m'.state = .Dead) := by
  cases e with
  | gossip target => exact ⟨m, hm, id⟩
  | tick => exact ⟨_, (get_failure_detection s now x).trans (congrArg _ hm), detect_dead _ _⟩
  | deliver d =>
    have hr := reaction h (he d rfl) d.src now x
    rw [hm] at hr
    unfold react
    generalize (s.handle_message d.msg d.src now).1.get_member x = after at hr
    cases hr with
    | kept => exact ⟨m, rfl, id⟩
    | heard => exact ⟨_, rfl, id⟩
    | joined _ node hmsg hid => exact ⟨_, rfl, fun hd => absurd hid (hj hd d node rfl hmsg)⟩

theorem noRegress_step {c c' : Cluster} {e : Event} {y x : NodeId} (hstep : c.step e = some c')
    (hf : FirstIncarnation c) (he : ¬ Revives c y x e) : NoRegress c c' y x := by
  intro s m hs hm
  have hf' := first_step hstep hf
  -- every incarnation is 1, so only the entry and its state are to be found
  suffices h : ∃ s' m', c'.service y = some s' ∧ s'.get_member x = some m' ∧ (m.state = .Dead → m'.state = .Dead) by
    obtain ⟨s', m', hs', hm', hdead⟩ := h
    exact ⟨s', m', hs', hm', UInt64.le_of_eq (((hf.service y s hs).2 x m hm).trans ((hf'.service y s' hs').2 x m' hm').symm), hdead⟩
  obtain ⟨id, b, so, seeds, -, hid, rfl⟩ | ⟨id, le, s', rfl, hs', hen, rfl⟩ | ⟨ms, -, rfl⟩ := step_cases hstep
  · have hne : y ≠ id := by
      rintro rfl
      rw [hs] at hid
      cases hid
    exact ⟨s, m, by rw [update_service_of_ne c _ hne, hs], hm, fun hd => hd⟩
  · by_cases hy : y = id
    · subst hy
      rw [hs] at hs'
      cases hs'
      obtain ⟨m', hm', hdead⟩ := react_keeps (hf.service y s hs) c.now
        (fun d hd => hf.sent d (sent_of_enabled hen hd)) hm fun hd d node hle hmsg hid =>
          he ⟨by simp [holds, hs, hm, hd], d, node, by rw [hle], hmsg, hid⟩
      exact ⟨_, m', update_service_self .., hm', hdead⟩
    · exact ⟨s, m, by rw [update_service_of_ne c _ hy, hs], hm, fun hd => hd⟩
  · exact ⟨s, m, hs, hm, fun hd => hd⟩

theorem noRegress_run {es : List Event} {y x : NodeId} {c c' : Cluster} (hf : FirstIncarnation c)
    (hrun : c.run es = some c') (hes : NeverRevived c y x es) : NoRegress c c' y x := by
  induction es generalizing c with
  | nil =>
    cases hrun
    exact .refl _ y x
  | cons e es ih =>
    obtain ⟨c₁, h₁, h₂⟩ := Option.bind_eq_some_iff.1 hrun
    refine (noRegress_step h₁ hf (hes [] e es c rfl rfl)).trans (ih (first_step h₁ hf) h₂ ?_)
    intro es₁ e' es₂ c₂ hsplit hc₂
    exact hes (e :: es₁) e' es₂ c₂ (by rw [hsplit, List.cons_append]) (by rw [run, h₁, Option.bind_some, hc₂])

theorem not_noRegress_of_revives {c c' : Cluster} {e : Event} {y x : NodeId} (hv : SelfView c)
    (hstep : c.step e = some c') (he : Revives c y x e) : ¬ NoRegress c c' y x := by
  obtain ⟨hdead, d, node, rfl, hmsg, rfl⟩ := he
  intro h
  have hdead' := h.dead hdead
  obtain ⟨_, _, _, _, hev, -⟩ | ⟨_, _, s, hev, -, hen, rfl⟩ | ⟨_, hev, -⟩ := step_cases hstep
  · cases hev
  · cases hev
    have halive := hv.joins d (sent_of_enabled hen rfl) node hmsg
    simp [holds, react, handle_message, hmsg, handle_join, halive] at hdead'
  · cases hev

/-- In every run from a reachable state, what `y` says of `x` goes back if and
only if a `Join` of `x` is delivered to `y` while `y` holds `x` as `Dead`. -/
theorem never_regresses_iff {c c' : Cluster} (h : Reachable c) (y x : NodeId) {es : List Event}
    (hrun : c.run es = some c') : NeverRegresses c y x es ↔ NeverRevived c y x es := by
  obtain ⟨es₀, h₀⟩ := h
  have reachable : ∀ {es₁ c₁}, c.run es₁ = some c₁ → Reachable c₁ := fun hc₁ =>
    ⟨es₀ ++ _, by rw [run_append, h₀]; exact hc₁⟩
  constructor
  · intro hreg es₁ e es₂ c₁ hes hc₁ hrev
    have hrest : c₁.run (e :: es₂) = some c' := by
      rw [hes, run_append, hc₁] at hrun
      exact hrun
    obtain ⟨c₂, hstep, -⟩ := Option.bind_eq_some_iff.1 hrest
    have hone : c₁.run [e] = some c₂ := by rw [run, hstep]; rfl
    exact not_noRegress_of_revives (selfView_reachable (reachable hc₁)) hstep hrev
      (hreg es₁ [e] es₂ c₁ c₂ hes hc₁ hone)
  · intro hrev es₁ es₂ es₃ c₁ c₂ hes hc₁ hc₂
    refine noRegress_run (first_reachable (reachable hc₁)) hc₂ fun es₄ e es₅ c₃ hsplit hc₃ => ?_
    refine hrev (es₁ ++ es₄) e (es₅ ++ es₃) c₃ (by rw [hes, hsplit]; simp) ?_
    rw [run_append, hc₁]
    exact hc₃

section LateJoin

/-- `silent` is not heard of until it is `Dead`. -/
def death : List Event := silence ++ [.elapse 10001, .node observer .tick]

/-- The datagram that `silent` joined with. -/
def join_of_silent : Datagram :=
  ⟨loopback 5001, loopback 5000, .Join ⟨silent, loopback 5001, loopback 6001, .Alive, 1, none⟩⟩

/-- It arrives a second time. -/
def late_join : List Event := death ++ [.node observer (.deliver join_of_silent)]

def mourned : Cluster := (init.run death).get (by decide)

def revived : Cluster := (init.run late_join).get (by decide)

theorem mourned_holds : mourned.holds observer silent = some .Dead := by decide

theorem revived_holds : revived.holds observer silent = some .Alive := by decide

theorem run_death : init.run death = some mourned := by simp [mourned]

theorem run_late_join : init.run late_join = some revived := by simp [revived]

theorem not_never_regresses :
    ¬ ∀ c, Reachable c → ∀ y x es c', c.run es = some c' → NeverRegresses c y x es := by
  intro h
  obtain ⟨c, hc, hone⟩ := Option.bind_eq_some_iff.1 ((run_append init death _).symm.trans run_late_join)
  obtain rfl : c = mourned := Option.some.inj (hc.symm.trans run_death)
  have hreg := h init ⟨[], rfl⟩ observer silent late_join revived run_late_join death
    [.node observer (.deliver join_of_silent)] [] mourned revived (by simp [late_join]) run_death hone
  have hdead := hreg.dead mourned_holds
  rw [revived_holds] at hdead
  cases hdead

theorem late_join_regresses : ¬ NeverRegresses init observer silent late_join := by
  rw [never_regresses_iff ⟨[], rfl⟩ observer silent run_late_join]
  intro h
  exact h death (.node observer (.deliver join_of_silent)) [] mourned rfl run_death
    ⟨mourned_holds, join_of_silent, _, rfl, rfl, rfl⟩

end LateJoin

end Cluster
