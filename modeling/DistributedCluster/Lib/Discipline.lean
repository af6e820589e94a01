import Mathlib.Data.Multiset.AddSub
import DistributedCluster.Lib.Http
/-!
# Disciplines

Where an invariant rests on what each process has done so far (it writes only
what it has read, it releases only what it holds), every process carries a
ghost: a value the program does not have, which records this. A discipline says
what a process with a given ghost may do, what it may assume of the answer, and
what the ghost is afterwards. Programs are checked against it one by one,
without a state; `Pool.tracked_steps` puts them together.
-/

namespace Async

structure Discipline (I : Interface) (γ : Type) where
  may : γ → I.Act → Prop
  gives : γ → (e : I.Act) → I.Ans e → Prop
  next : γ → (e : I.Act) → I.Ans e → γ

variable {I : Interface} {σ α β γ ι M ρ : Type} {D : Discipline I γ}

/-- A process with ghost `g` may run `p`, and ends with `Q`. -/
def Obeys (D : Discipline I γ) : Async I α → γ → (α → γ → Prop) → Prop
  | .done a, g, Q => Q a g
  | .call e k, g, Q => D.may g e ∧ ∀ x, D.gives g e x → Obeys D (k x) (D.next g e x) Q

theorem Obeys.mono {p : Async I α} {g : γ} {Q Q' : α → γ → Prop} (h : Obeys D p g Q) (hQ : ∀ a g', Q a g' → Q' a g') :
    Obeys D p g Q' := by
  induction p generalizing g with
  | done a => exact hQ a g h
  | call e k ih => exact ⟨h.1, fun x hx => ih x (h.2 x hx)⟩

theorem Obeys.pure {a : α} {g : γ} {Q : α → γ → Prop} (h : Q a g) : Obeys D (pure a) g Q := h

theorem Obeys.perform {e : I.Act} {g : γ} {Q : I.Ans e → γ → Prop} (hmay : D.may g e)
    (h : ∀ x, D.gives g e x → Q x (D.next g e x)) : Obeys D (Async.perform e) g Q := ⟨hmay, h⟩

theorem Obeys.bind {p : Async I α} {f : α → Async I β} {g : γ} {Q : α → γ → Prop} {Q' : β → γ → Prop}
    (hp : Obeys D p g Q) (hf : ∀ a g', Q a g' → Obeys D (f a) g' Q') : Obeys D (p >>= f) g Q' := by
  induction p generalizing g with
  | done a => exact hf a g hp
  | call e k ih => exact ⟨hp.1, fun x hx => ih x (hp.2 x hx)⟩

/-- The action is always allowed to a process with `P`, and keeps `P`. -/
def Discipline.Free (D : Discipline I γ) (P : γ → Prop) (e : I.Act) : Prop :=
  ∀ g, P g → D.may g e ∧ ∀ x, D.gives g e x → P (D.next g e x)

theorem Discipline.Free.obeys {P : γ → Prop} {e : I.Act} {g : γ} (h : D.Free P e) (hg : P g) :
    Obeys D (Async.perform e) g fun _ => P := h g hg

/-- Retries keep to what the attempts keep to; `reach` tells who may get one. -/
theorem Obeys.retry_reach {P : γ → Prop} {Q : ρ → γ → Prop} {send : Nat → Async I (Fate M)} {serve : M → Async I ρ} {g : γ}
    (reach : M → Prop)
    (hsend : ∀ i g, P g → Obeys D (send i) g fun f g' => P g' ∧ ∀ m, f = .unheard m ∨ f = .replied m → reach m)
    (hserve : ∀ m g, reach m → P g → Obeys D (serve m) g fun r g' => P g' ∧ Q r g')
    (hg : P g) (attempts : Nat) :
    Obeys D (Async.retry send serve attempts) g fun r g' => P g' ∧ ∀ x, r = .ok x → Q x g' := by
  have hattempt : ∀ i g, P g → Obeys D (Async.attempt (send i) serve) g fun r g' => P g' ∧ ∀ x, r = some x → Q x g' := by
    intro i g hg
    refine (hsend i g hg).bind fun f g₁ h₁ => ?_
    cases f with
    | lost => exact Obeys.pure ⟨h₁.1, fun x hx => by cases hx⟩
    | unheard m =>
      exact (hserve m g₁ (h₁.2 m (.inl rfl)) h₁.1).bind fun _ g₂ h₂ => Obeys.pure ⟨h₂.1, fun x hx => by cases hx⟩
    | replied m =>
      exact (hserve m g₁ (h₁.2 m (.inr rfl)) h₁.1).bind fun r g₂ h₂ => Obeys.pure ⟨h₂.1, fun x hx => Option.some.inj hx ▸ h₂.2⟩
  have key : ∀ left g, P g →
      Obeys D (retryLeft send serve attempts left) g fun r g' => P g' ∧ ∀ x, r = .ok x → Q x g' := by
    intro left
    induction left with
    | zero => exact fun g hg => Obeys.pure ⟨hg, fun x hx => by cases hx⟩
    | succ left ih =>
      intro g hg
      refine (hattempt _ g hg).bind fun r g₁ h₁ => ?_
      cases r with
      | some response => exact Obeys.pure ⟨h₁.1, fun x hx => Except.ok.inj hx ▸ h₁.2 response rfl⟩
      | none =>
        dsimp only
        split
        · exact Obeys.pure ⟨h₁.1, fun x hx => by cases hx⟩
        · exact ih g₁ h₁.1
  exact key attempts g hg

/-- Retries keep to what the attempts keep to. -/
theorem Obeys.retry {P : γ → Prop} {Q : ρ → γ → Prop} {send : Nat → Async I (Fate M)} {serve : M → Async I ρ} {g : γ}
    (hsend : ∀ i g, P g → Obeys D (send i) g fun _ => P) (hserve : ∀ m g, P g → Obeys D (serve m) g fun r g' => P g' ∧ Q r g')
    (hg : P g) (attempts : Nat) :
    Obeys D (Async.retry send serve attempts) g fun r g' => P g' ∧ ∀ x, r = .ok x → Q x g' :=
  Obeys.retry_reach (fun _ => True) (fun i g hg => (hsend i g hg).mono fun _ _ h => ⟨h, fun _ _ => trivial⟩)
    (fun m g _ hg => hserve m g hg) hg attempts

/-- Where the first attempt is always answered, the request is handled once. -/
theorem Obeys.retry_answered {m : M} {Q : Result ρ → γ → Prop} {send : Nat → Async I (Fate M)} {serve : M → Async I ρ}
    {g : γ} {attempts : Nat} (hpos : 0 < attempts)
    (hsend : ∀ i, Obeys D (send i) g fun f g' => f = .replied m ∧ Obeys D (serve m) g' fun r => Q (.ok r)) :
    Obeys D (Async.retry send serve attempts) g Q := by
  obtain ⟨left, rfl⟩ := Nat.exists_eq_add_one.2 hpos
  have hattempt : Obeys D (Async.attempt (send 0) serve) g fun r g' => ∃ x, r = some x ∧ Q (.ok x) g' := by
    refine (hsend 0).bind fun f g' h => ?_
    obtain ⟨rfl, hserve⟩ := h
    exact hserve.bind fun r _ hr => Obeys.pure ⟨r, rfl, hr⟩
  unfold Async.retry retryLeft
  rw [Nat.sub_self]
  refine hattempt.bind fun r g' h => ?_
  obtain ⟨x, rfl, hx⟩ := h
  exact Obeys.pure hx

/-- The looks keep `P`. -/
theorem Obeys.filterM {P : γ → Prop} {look : β → Async I Bool} (h : ∀ b g, P g → Obeys D (look b) g fun _ => P)
    {g : γ} (hg : P g) (bs : List β) : Obeys D (bs.filterM look) g fun _ => P := by
  induction bs generalizing g with
  | nil => exact hg
  | cons b bs ih =>
    rw [filterM_cons]
    exact (h b g hg).bind fun x g₁ h₁ => (ih h₁).bind fun kept _ h₂ => Obeys.pure h₂

/-- A stricter discipline allows what processes with `J` do, if it keeps `J`. -/
theorem Obeys.refine {D' : Discipline I γ} {J : γ → Prop} {p : Async I α} {g : γ} {Q : α → γ → Prop}
    (hmay : ∀ g e, J g → D.may g e → D'.may g e)
    (hgives : ∀ g e x, J g → D.may g e → D'.gives g e x → D.gives g e x ∧ D'.next g e x = D.next g e x ∧ J (D.next g e x))
    (h : Obeys D p g Q) (hg : J g) : Obeys D' p g Q := by
  induction p generalizing g with
  | done a => exact h
  | call e k ih =>
    refine ⟨hmay g e hg h.1, fun x hx => ?_⟩
    obtain ⟨hgiven, hnext, hJ⟩ := hgives g e x hg h.1 hx
    rw [hnext]
    exact ih x (h.2 x hgiven) hJ

/-! ## No discipline -/

/-- Everything is allowed, and nothing is promised. -/
def Discipline.lax : Discipline I Unit where
  may _ _ := True
  gives _ _ _ := True
  next _ _ _ := ()

/-- Where nothing is forbidden, nothing is disobeyed. -/
theorem obeys_of_may (h : ∀ g e, D.may g e) (p : Async I α) (g : γ) : Obeys D p g fun _ _ => True := by
  induction p generalizing g with
  | done a => trivial
  | call e k ih => exact ⟨h g e, fun x _ => ih x _⟩

theorem obeys_lax (p : Async I α) : Obeys Discipline.lax p () fun _ _ => True := obeys_of_may (fun _ _ => trivial) p ()

/-- Only actions of one kind are allowed, and nothing is promised. -/
def Discipline.only (φ : I.Act → Prop) : Discipline I Unit where
  may _ e := φ e
  gives _ _ _ := True
  next _ _ _ := ()

/-! ## Two disciplines at once -/

/-- Each has its own ghost. -/
def Discipline.prod {δ : Type} (D : Discipline I γ) (E : Discipline I δ) : Discipline I (γ × δ) where
  may g e := D.may g.1 e ∧ E.may g.2 e
  gives g e x := D.gives g.1 e x ∧ E.gives g.2 e x
  next g e x := (D.next g.1 e x, E.next g.2 e x)

theorem Obeys.prod {δ : Type} {E : Discipline I δ} {p : Async I α} {g : γ} {d : δ} {Q : α → γ → Prop} {Q' : α → δ → Prop}
    (h : Obeys D p g Q) (h' : Obeys E p d Q') : Obeys (D.prod E) p (g, d) fun a gd => Q a gd.1 ∧ Q' a gd.2 := by
  induction p generalizing g d with
  | done a => exact ⟨h, h'⟩
  | call e k ih => exact ⟨⟨h.1, h'.1⟩, fun x hx => ih x (h.2 x hx.1) (h'.2 x hx.2)⟩

/-! ## Ghosts that grow -/

section Grows

variable [Preorder γ]

/-- `p` only adds to its ghost, and returns what `Q` says. -/
def Grows (D : Discipline I γ) (p : Async I α) (g : γ) (Q : α → γ → Prop) : Prop :=
  Obeys D p g fun a g' => g ≤ g' ∧ Q a g'

theorem Grows.pure {a : α} {g : γ} {Q : α → γ → Prop} (h : Q a g) : Grows D (pure a) g Q := ⟨le_rfl, h⟩

theorem Grows.perform {e : I.Act} {g : γ} {Q : I.Ans e → γ → Prop} (hmay : D.may g e)
    (h : ∀ x, D.gives g e x → g ≤ D.next g e x ∧ Q x (D.next g e x)) : Grows D (Async.perform e) g Q := ⟨hmay, h⟩

theorem Grows.bind {p : Async I α} {f : α → Async I β} {g : γ} {Q : α → γ → Prop} {Q' : β → γ → Prop}
    (hp : Grows D p g Q) (hf : ∀ a g', g ≤ g' → Q a g' → Grows D (f a) g' Q') : Grows D (p >>= f) g Q' :=
  Obeys.bind hp fun a g' h => (hf a g' h.1 h.2).mono fun _ _ h' => ⟨h.1.trans h'.1, h'.2⟩

theorem Grows.post {p : Async I α} {g : γ} {Q Q' : α → γ → Prop} (h : Grows D p g Q)
    (hQ : ∀ a g', g ≤ g' → Q a g' → Q' a g') : Grows D p g Q' :=
  h.mono fun a g' h' => ⟨h'.1, hQ a g' h'.1 h'.2⟩

/-- Where nothing is forbidden and every action adds to the ghost, programs do. -/
theorem grows_of_may (h : ∀ g e, D.may g e) (hnext : ∀ g e x, g ≤ D.next g e x) (p : Async I α) (g : γ) :
    Grows D p g fun _ _ => True := by
  induction p generalizing g with
  | done a => exact ⟨le_rfl, trivial⟩
  | call e k ih => exact ⟨h g e, fun x _ => (ih x _).mono fun _ _ h' => ⟨(hnext g e x).trans h'.1, trivial⟩⟩

/-- What the ghost says of an answer, it still says when more has been added to it. -/
theorem Grows.filterM {φ : β → Bool → γ → Prop} (hφ : ∀ b x, Monotone (φ b x)) {look : β → Async I Bool} {g : γ}
    (h : ∀ b g', g ≤ g' → Grows D (look b) g' (φ b)) (bs : List β) :
    Grows D (bs.filterM look) g fun kept g' => Chosen (fun b x => φ b x g') bs kept := by
  induction bs generalizing g with
  | nil => exact Grows.pure .nil
  | cons b bs ih =>
    rw [filterM_cons]
    refine (h b g le_rfl).bind fun x g₁ h₁ hx => ?_
    refine (ih fun b g' hg' => h b g' (h₁.trans hg')).bind fun kept g₂ h₂ hkept => ?_
    exact Grows.pure (hkept.cons (hφ b x h₂ hx))

/-- Retries only add to the ghost if the attempts do. -/
theorem Grows.retry {g : γ} {send : Nat → Async I (Fate M)} {serve : M → Async I ρ} {Q : ρ → γ → Prop}
    (hsend : ∀ i g', g ≤ g' → Grows D (send i) g' fun _ _ => True)
    (hserve : ∀ m g', g ≤ g' → Grows D (serve m) g' Q) (attempts : Nat) :
    Grows D (Async.retry send serve attempts) g fun r g' => ∀ x, r = .ok x → Q x g' := by
  refine Obeys.retry (P := fun g' => g ≤ g') (fun i g' hg' => ?_) (fun m g' hg' => ?_) le_rfl attempts
  · exact (hsend i g' hg').mono fun _ _ h => hg'.trans h.1
  · exact (hserve m g' hg').mono fun _ _ h => ⟨hg'.trans h.1, h.2⟩

end Grows

/-! ## Pools -/

namespace Pool

variable {S : ι → Sem I σ} {spawn : σ → Pool ι I α → ι → Async I α → Prop} {env : σ → Pool ι I α → σ → Prop}

/-- What process `i` may do is up to `D i`: every process has a ghost that allows it to go on and to end with `Q`; the
state and the ghosts satisfy `Inv`. -/
def Tracked (D : ι → Discipline I γ) (Inv : σ → Multiset γ → Prop) (Q : ι → α → γ → Prop) (c : σ × Pool ι I α) : Prop :=
  ∃ l : List ((ι × Async I α) × γ), l.map Prod.fst = c.2 ∧ (∀ x ∈ l, Obeys (D x.1.1) x.1.2 x.2 (Q x.1.1)) ∧
    Inv c.1 ↑(l.map Prod.snd)

variable {D : ι → Discipline I γ} {Inv : σ → Multiset γ → Prop} {Q : ι → α → γ → Prop}

theorem tracked_nil {s : σ} (h : Inv s 0) : Tracked D Inv Q (s, ([] : Pool ι I α)) :=
  ⟨[], rfl, fun _ hx => absurd hx List.not_mem_nil, h⟩

theorem Tracked.inv {c : σ × Pool ι I α} (h : Tracked D Inv Q c) : ∃ gs, Inv c.1 gs := by
  obtain ⟨l, -, -, hinv⟩ := h
  exact ⟨_, hinv⟩

/-- One process of a tracked pool has a ghost `g` beside the others' `gs`, and
the pool stays tracked whatever becomes of the process, if its ghost follows.
From there on another invariant may hold. -/
theorem Tracked.process {s : σ} {l₁ l₂ : Pool ι I α} {i : ι} {p : Async I α} (h : Tracked D Inv Q (s, l₁ ++ (i, p) :: l₂)) :
    ∃ g gs, Inv s (g ::ₘ gs) ∧ Obeys (D i) p g (Q i) ∧
      (∀ {Inv' : σ → Multiset γ → Prop} s' p' g', Inv' s' (g' ::ₘ gs) → Obeys (D i) p' g' (Q i) →
        Tracked D Inv' Q (s', l₁ ++ (i, p') :: l₂)) ∧
      ∀ {Inv' : σ → Multiset γ → Prop} s', Inv' s' gs → Tracked D Inv' Q (s', l₁ ++ l₂) := by
  obtain ⟨l, hl, hobeys, hinv⟩ := h
  obtain ⟨m₁, m, rfl, rfl, hm⟩ := List.map_eq_append_iff.1 hl
  obtain ⟨⟨ip, g⟩, m₂, rfl, rfl, rfl⟩ := List.map_eq_cons_iff.1 hm
  have hghosts : ∀ p' g', (↑((m₁ ++ ((i, p'), g') :: m₂).map Prod.snd) : Multiset γ) = g' ::ₘ ↑((m₁ ++ m₂).map Prod.snd) := by
    intro p' g'
    rw [Multiset.cons_coe, Multiset.coe_eq_coe]
    simp
  refine ⟨g, ↑((m₁ ++ m₂).map Prod.snd), hghosts p g ▸ hinv, hobeys ((i, p), g) (by simp), ?_, ?_⟩
  · intro Inv' s' p' g' hinv' hobeys'
    refine ⟨m₁ ++ ((i, p'), g') :: m₂, by simp, fun x hx => ?_, ?_⟩
    · simp only [List.mem_append, List.mem_cons] at hx
      rcases hx with hx | rfl | hx
      · exact hobeys x (by simp [hx])
      · exact hobeys'
      · exact hobeys x (by simp [hx])
    · exact (hghosts p' g').symm ▸ hinv'
  · intro Inv' s' hinv'
    refine ⟨m₁ ++ m₂, by simp, fun x hx => hobeys x ?_, hinv'⟩
    simp only [List.mem_append, List.mem_cons] at hx ⊢
    exact hx.imp id .inr

/-- A new process may join with any ghost that it obeys; there is a ghost for each process. -/
theorem Tracked.join_counted {s : σ} {l : Pool ι I α} (h : Tracked D Inv Q (s, l)) {i : ι} {p : Async I α} {g : γ}
    (hp : Obeys (D i) p g (Q i)) (hg : ∀ gs : Multiset γ, gs.card = l.length → Inv s gs → Inv s (g ::ₘ gs)) :
    Tracked D Inv Q (s, (i, p) :: l) := by
  obtain ⟨l', rfl, hobeys, hinv⟩ := h
  refine ⟨((i, p), g) :: l', rfl, fun x hx => ?_, hg _ (by simp) hinv⟩
  rcases List.mem_cons.1 hx with rfl | hx
  · exact hp
  · exact hobeys x hx

/-- Where every ghost tells whose it is, a new process may rely on whose ghosts are there. -/
theorem Tracked.join_named {κ : Type} {owner : γ → κ} {name : ι → κ} {s : σ} {l : Pool ι I α} (h : Tracked D Inv Q (s, l))
    (howner : ∀ i p g, Obeys (D i) p g (Q i) → owner g = name i) {i : ι} {p : Async I α} {g : γ}
    (hp : Obeys (D i) p g (Q i))
    (hg : ∀ gs : Multiset γ, (∀ g' ∈ gs, ∃ ip ∈ l, owner g' = name ip.1) → Inv s gs → Inv s (g ::ₘ gs)) :
    Tracked D Inv Q (s, (i, p) :: l) := by
  obtain ⟨l', rfl, hobeys, hinv⟩ := h
  have hnamed : ∀ g' ∈ (↑(l'.map Prod.snd) : Multiset γ), ∃ ip ∈ l'.map Prod.fst, owner g' = name ip.1 := by
    intro g' hg'
    obtain ⟨x, hx, rfl⟩ := List.mem_map.1 (Multiset.mem_coe.1 hg')
    exact ⟨x.1, List.mem_map_of_mem hx, howner _ _ _ (hobeys x hx)⟩
  refine ⟨((i, p), g) :: l', rfl, fun x hx => ?_, hg _ hnamed hinv⟩
  rcases List.mem_cons.1 hx with rfl | hx
  · exact hp
  · exact hobeys x hx

/-- A new process may join with any ghost that it obeys. -/
theorem Tracked.join {s : σ} {l : Pool ι I α} (h : Tracked D Inv Q (s, l)) {i : ι} {p : Async I α} {g : γ}
    (hp : Obeys (D i) p g (Q i)) (hg : ∀ gs, Inv s gs → Inv s (g ::ₘ gs)) : Tracked D Inv Q (s, (i, p) :: l) :=
  h.join_counted hp fun gs _ => hg gs

/-- A finished process has what it ends with. -/
theorem Tracked.done {s : σ} {l : Pool ι I α} (h : Tracked D Inv Q (s, l)) {i : ι} {a : α} (hmem : (i, Async.done a) ∈ l) :
    ∃ g gs, g ∈ gs ∧ Inv s gs ∧ Q i a g := by
  obtain ⟨l', rfl, hobeys, hinv⟩ := h
  obtain ⟨x, hx, hxi⟩ := List.mem_map.1 hmem
  have hends := hobeys x hx
  rw [hxi] at hends
  exact ⟨x.2, _, Multiset.mem_coe.2 (List.mem_map_of_mem hx), hinv, hends⟩

/-- A pool may go over to another discipline, if each process can. -/
theorem Tracked.refine {D' : ι → Discipline I γ} {Inv' : σ → Multiset γ → Prop} {J : γ → Prop} {c : σ × Pool ι I α}
    (h : Tracked D Inv Q c) (hInv : ∀ gs, Inv c.1 gs → Inv' c.1 gs ∧ ∀ g ∈ gs, J g)
    (hobeys : ∀ i p g, J g → Obeys (D i) p g (Q i) → Obeys (D' i) p g (Q i)) : Tracked D' Inv' Q c := by
  obtain ⟨l, hl, hall, hinv⟩ := h
  obtain ⟨hinv', hJ⟩ := hInv _ hinv
  refine ⟨l, hl, fun x hx => hobeys _ _ _ (hJ x.2 ?_) (hall x hx), hinv'⟩
  exact Multiset.mem_coe.2 (List.mem_map_of_mem hx)

/-- The rule for pools: an action that is allowed keeps `Inv`, with the ghost
that comes after it. -/
theorem tracked_step
    (hrun : ∀ i s g gs e x s', Inv s (g ::ₘ gs) → (D i).may g e → S i e s x s' →
      (D i).gives g e x ∧ Inv s' ((D i).next g e x ::ₘ gs))
    (hretire : ∀ s g gs, Inv s (g ::ₘ gs) → Inv s gs)
    (hspawn : ∀ s l i p, Tracked D Inv Q (s, l) → spawn s l i p → Tracked D Inv Q (s, (i, p) :: l))
    (henv : ∀ s l s' gs, Inv s gs → env s l s' → Inv s' gs)
    {c c' : σ × Pool ι I α} (h : Step S spawn env c c') (hc : Tracked D Inv Q c) : Tracked D Inv Q c' := by
  cases h with
  | run i e k x hS =>
    obtain ⟨g, gs, hinv, hobeys, hgoes, -⟩ := hc.process
    obtain ⟨hgives, hinv'⟩ := hrun i _ g gs e x _ hinv hobeys.1 hS
    exact hgoes _ _ _ hinv' (hobeys.2 x hgives)
  | retire i a =>
    obtain ⟨g, gs, hinv, -, -, hends⟩ := hc.process
    exact hends _ (hretire _ g gs hinv)
  | spawn i p hsp => exact hspawn _ _ i p hc hsp
  | env s' he =>
    obtain ⟨l, hl, hobeys, hinv⟩ := hc
    exact ⟨l, hl, hobeys, henv _ _ _ _ hinv he⟩

theorem tracked_steps
    (hrun : ∀ i s g gs e x s', Inv s (g ::ₘ gs) → (D i).may g e → S i e s x s' →
      (D i).gives g e x ∧ Inv s' ((D i).next g e x ::ₘ gs))
    (hretire : ∀ s g gs, Inv s (g ::ₘ gs) → Inv s gs)
    (hspawn : ∀ s l i p, Tracked D Inv Q (s, l) → spawn s l i p → Tracked D Inv Q (s, (i, p) :: l))
    (henv : ∀ s l s' gs, Inv s gs → env s l s' → Inv s' gs)
    {c c' : σ × Pool ι I α} (h : Steps S spawn env c c') (hc : Tracked D Inv Q c) : Tracked D Inv Q c' := by
  induction h with
  | refl => exact hc
  | tail _ h ih => exact tracked_step hrun hretire hspawn henv h ih

/-- What a tracked pool does, looked at through `look`, is what another pool does. -/
theorem Tracked.image {τ : Type} {S' : ι → Sem I τ} {spawn' : τ → Pool ι I α → ι → Async I α → Prop}
    {env' : τ → Pool ι I α → τ → Prop} (look : σ → τ)
    (hstep : ∀ c c', Step S spawn env c c' → Tracked D Inv Q c → Tracked D Inv Q c')
    (hrun : ∀ i s g gs e x s', Inv s (g ::ₘ gs) → (D i).may g e → S i e s x s' → S' i e (look s) x (look s'))
    (hspawn : ∀ s l i p, spawn s l i p → spawn' (look s) l i p) (henv : ∀ s l s', env s l s' → env' (look s) l (look s'))
    {c c' : σ × Pool ι I α} (h : Steps S spawn env c c') (hc : Tracked D Inv Q c) :
    Steps S' spawn' env' (look c.1, c.2) (look c'.1, c'.2) ∧ Tracked D Inv Q c' := by
  induction h with
  | refl => exact ⟨.refl, hc⟩
  | @tail c₁ c₂ _ h ih =>
    obtain ⟨hsteps, hc₁⟩ := ih
    refine ⟨hsteps.tail ?_, hstep c₁ c₂ h hc₁⟩
    cases h with
    | run i e k x hS =>
      obtain ⟨g, gs, hinv, hobeys, -, -⟩ := hc₁.process
      exact .run i e k x (hrun i _ g gs e x _ hinv hobeys.1 hS)
    | retire i a => exact .retire i a
    | spawn i p hsp => exact .spawn i p (hspawn _ _ _ _ hsp)
    | env s' he => exact .env (look s') (henv _ _ _ he)

end Pool
end Async
