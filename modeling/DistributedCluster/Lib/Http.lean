import DistributedCluster.Lib.Async
/-!
# Requests that are retried

One attempt of a request is lost, or the server handles it and the answer comes
back or does not. A caller that hears nothing tries again.
-/

inductive StatusCode
  | OK
  | CREATED
  | ACCEPTED
  | BAD_REQUEST
  | NOT_FOUND
  | UNPROCESSABLE_ENTITY
  | INTERNAL_SERVER_ERROR
  | BAD_GATEWAY
  deriving DecidableEq, Repr

namespace StatusCode

def is_success : StatusCode → Bool
  | OK | CREATED | ACCEPTED => true
  | _ => false

def display : StatusCode → String
  | OK => "200 OK"
  | CREATED => "201 Created"
  | ACCEPTED => "202 Accepted"
  | BAD_REQUEST => "400 Bad Request"
  | NOT_FOUND => "404 Not Found"
  | UNPROCESSABLE_ENTITY => "422 Unprocessable Entity"
  | INTERNAL_SERVER_ERROR => "500 Internal Server Error"
  | BAD_GATEWAY => "502 Bad Gateway"

end StatusCode

/-- What becomes of one attempt; `m` is the server that gets it. -/
inductive Fate (N : Type)
  | lost
  | unheard (m : N)
  | replied (m : N)
  deriving DecidableEq, Repr

/-- What the network may do: deliver everything and every answer, or lose either. -/
inductive Network
  | reliable
  | lossy
  deriving DecidableEq, Repr

theorem Network.reliable_ne_lossy : Network.reliable ≠ .lossy := by decide

/-- The fates of an attempt sent to `addr`, where `host` says who listens. -/
def Network.allows {N A : Type} (net : Network) (host : A → Option N) (addr : A) : Fate N → Prop
  | .lost => host addr = none ∨ net = .lossy
  | .unheard m => host addr = some m ∧ net = .lossy
  | .replied m => host addr = some m

theorem Network.reliable_allows {N A : Type} {host : A → Option N} {addr : A} {m : N} (h : host addr = some m)
    {f : Fate N} (hf : Network.reliable.allows host addr f) : f = .replied m := by
  cases f with
  | lost => simp [allows, h] at hf
  | unheard m' => exact absurd hf.2 (by decide)
  | replied m' =>
    rw [show host addr = some m' from hf] at h
    rw [Option.some.inj h]

/-- A lossy network may also lose nothing. -/
theorem Network.lossy_allows {N A : Type} {host : A → Option N} {addr : A} {f : Fate N} {net : Network}
    (h : net.allows host addr f) : Network.lossy.allows host addr f := by
  cases f with
  | lost => exact .inr rfl
  | unheard m => exact ⟨h.1, rfl⟩
  | replied m => exact h

/-- An error: the client's own, or one the program words. -/
inductive Error
  | request
  | anyhow (text : String)
  deriving DecidableEq, Repr

abbrev Result (α : Type) := Except Error α

namespace Async

variable {I : Interface} {σ M ρ : Type}

/-- One attempt: the answer, if it is heard. -/
def attempt (send : Async I (Fate M)) (serve : M → Async I ρ) : Async I (Option ρ) := do
  match ← send with
  | .replied m => do
    let response ← serve m
    pure (some response)
  | .unheard m => do
    let _ ← serve m
    pure none
  | .lost => pure none

/-- The attempts that are left, of `attempts`; the time between two of them is
the others'. -/
def retryLeft (send : Nat → Async I (Fate M)) (serve : M → Async I ρ) (attempts : Nat) :
    Nat → Async I (Result ρ)
  | 0 => pure (.error (.anyhow "Retry attempts exhausted"))
  | left + 1 => do
    match ← attempt (send (attempts - (left + 1))) serve with
    | some response => pure (.ok response)
    | none => if left = 0 then pure (.error .request) else retryLeft send serve attempts left

/-- `for attempt in 0..attempts`: `serve m` is what server `m` does. -/
def retry (send : Nat → Async I (Fate M)) (serve : M → Async I ρ) (attempts : Nat) : Async I (Result ρ) :=
  retryLeft send serve attempts attempts

variable {S : Sem I σ} {R G : σ → σ → Prop} [Std.Refl R]

/-- The rule for one attempt: `A` is what sending leads to, by its fate. -/
theorem Triple.attempt {P : σ → Prop} {send : Async I (Fate M)} {serve : M → Async I ρ} {A : Fate M → σ → Prop}
    {Q : Option ρ → σ → Prop} (hQ : ∀ r, Stable R (Q r)) (hsend : Triple S R G P send A)
    (hlost : ∀ s, A .lost s → Q none s)
    (hunheard : ∀ m, Triple S R G (A (.unheard m)) (serve m) fun _ => Q none)
    (hreplied : ∀ m, Triple S R G (A (.replied m)) (serve m) fun r => Q (some r)) :
    Triple S R G P (Async.attempt send serve) Q := by
  refine hsend.bind fun f => ?_
  cases f with
  | lost => exact Triple.pure (hQ none) hlost
  | unheard m => exact (hunheard m).bind fun _ => Triple.pure (hQ none) fun _ h => h
  | replied m => exact (hreplied m).bind fun r => Triple.pure (hQ (some r)) fun _ h => h

/-- The rule for retries: `P` before an attempt, `N` after one without an answer. -/
theorem Triple.retry {P N : σ → Prop} {send : Nat → Async I (Fate M)} {serve : M → Async I ρ}
    {Q : Result ρ → σ → Prop} (hQ : ∀ r, Stable R (Q r))
    (hone : ∀ i, Triple S R G P (Async.attempt (send i) serve) fun r s =>
      match r with
      | some response => Q (.ok response) s
      | none => N s)
    (hN : ∀ s, N s → P s) (herr : ∀ e s, N s → Q (.error e) s) {attempts : Nat} (hpos : 0 < attempts) :
    Triple S R G P (Async.retry send serve attempts) Q := by
  have key : ∀ left, Triple S R G P (retryLeft send serve attempts (left + 1)) Q := by
    intro left
    induction left with
    | zero =>
      refine (hone _).bind fun r => ?_
      cases r with
      | some response => exact Triple.pure (hQ _) fun _ h => h
      | none => exact Triple.pure (hQ _) (herr _)
    | succ left ih =>
      refine (hone _).bind fun r => ?_
      cases r with
      | some response => exact Triple.pure (hQ _) fun _ h => h
      | none => exact ih.pre hN
  obtain ⟨left, rfl⟩ := Nat.exists_eq_add_one.2 hpos
  exact key left

/-- Retries keep what the attempts keep; `reach` tells who may get one. -/
theorem Keeps.retry_reach {Inv : σ → Prop} {send : Nat → Async I (Fate M)} {serve : M → Async I ρ} {Q : ρ → Prop}
    (reach : M → Prop) (hsend : ∀ i, Keeps S Inv (send i) fun f => ∀ m, f = .unheard m ∨ f = .replied m → reach m)
    (hserve : ∀ m, reach m → Keeps S Inv (serve m) Q) (attempts : Nat) :
    Keeps S Inv (Async.retry send serve attempts) fun r => ∀ x, r = .ok x → Q x := by
  have hattempt : ∀ i, Keeps S Inv (Async.attempt (send i) serve) fun r => ∀ x, r = some x → Q x := by
    intro i
    refine (hsend i).bind fun f hf => ?_
    cases f with
    | lost => exact Keeps.pure fun x hx => by cases hx
    | unheard m => exact (hserve m (hf m (.inl rfl))).bind fun _ _ => Keeps.pure fun x hx => by cases hx
    | replied m =>
      exact (hserve m (hf m (.inr rfl))).bind fun r hr => Keeps.pure fun x hx => Option.some.inj hx ▸ hr
  have key : ∀ left, Keeps S Inv (retryLeft send serve attempts left) fun r => ∀ x, r = .ok x → Q x := by
    intro left
    induction left with
    | zero => exact Keeps.pure fun x hx => by cases hx
    | succ left ih =>
      refine (hattempt _).bind fun r hr => ?_
      cases r with
      | some response => exact Keeps.pure fun x hx => Except.ok.inj hx ▸ hr response rfl
      | none =>
        dsimp only
        split
        · exact Keeps.pure fun x hx => by cases hx
        · exact ih
  exact key attempts

/-- Only `m` gets the attempts. -/
theorem Keeps.retry {Inv : σ → Prop} {send : Nat → Async I (Fate M)} {serve : M → Async I ρ} {m : M} {Q : ρ → Prop}
    (hsend : ∀ i, Keeps S Inv (send i) fun f => f = .lost ∨ f = .unheard m ∨ f = .replied m)
    (hserve : Keeps S Inv (serve m) Q) (attempts : Nat) :
    Keeps S Inv (Async.retry send serve attempts) fun r => ∀ x, r = .ok x → Q x := by
  refine Keeps.retry_reach (fun m' => m' = m) (fun i => (hsend i).post fun f hf m' hm' => ?_)
    (fun m' hm' => hm' ▸ hserve) attempts
  rcases hf with rfl | rfl | rfl
  · rcases hm' with h | h <;> cases h
  · rcases hm' with h | h <;> cases h
    rfl
  · rcases hm' with h | h <;> cases h
    rfl

/-- Where the first attempt is always answered, so is the request. -/
theorem Keeps.retry_answered {Inv : σ → Prop} {send : Nat → Async I (Fate M)} {serve : M → Async I ρ} {m : M} {Q : ρ → Prop}
    (hsend : ∀ i, Keeps S Inv (send i) fun f => f = .replied m) (hserve : Keeps S Inv (serve m) Q) {attempts : Nat}
    (hpos : 0 < attempts) : Keeps S Inv (Async.retry send serve attempts) fun r => ∃ x, r = .ok x ∧ Q x := by
  obtain ⟨left, rfl⟩ := Nat.exists_eq_add_one.2 hpos
  have hattempt : Keeps S Inv (Async.attempt (send 0) serve) fun r => ∃ x, r = some x ∧ Q x := by
    refine (hsend 0).bind fun f hf => ?_
    subst hf
    exact hserve.bind fun r hr => Keeps.pure ⟨r, rfl, hr⟩
  unfold Async.retry retryLeft
  rw [Nat.sub_self]
  refine hattempt.bind fun r hr => ?_
  obtain ⟨x, rfl, hx⟩ := hr
  exact Keeps.pure ⟨x, rfl, hx⟩

theorem runs_attempt {R : σ → σ → Prop} [IsPreorder σ R] {i : Nat} {send : Nat → Async I (Fate M)} {serve : M → Async I ρ}
    {s s' : σ} {x : ρ} (h : Runs S R (Async.attempt (send i) serve) s (some x) s') :
    ∃ m s₁, Runs S R (send i) s (.replied m) s₁ ∧ Runs S R (serve m) s₁ x s' := by
  obtain ⟨f, s₁, hsend, hrest⟩ := runs_bind.1 h
  cases f with
  | lost => cases (runs_pure.1 hrest).1
  | unheard m =>
    -- the server has answered, but nobody has heard it
    obtain ⟨_, s₂, -, hend⟩ := runs_bind.1 hrest
    cases (runs_pure.1 hend).1
  | replied m =>
    obtain ⟨y, s₂, hserve, hend⟩ := runs_bind.1 hrest
    obtain ⟨hx, hR⟩ := runs_pure.1 hend
    cases hx
    exact ⟨m, s₁, hsend, hserve.after hR⟩

/-- An answer is that of some server to some attempt. -/
theorem runs_retry {R : σ → σ → Prop} [IsPreorder σ R] (hS : ∀ e s x s', S e s x s' → R s s')
    {send : Nat → Async I (Fate M)} {serve : M → Async I ρ} {attempts : Nat} {s s' : σ} {x : ρ}
    (h : Runs S R (Async.retry send serve attempts) s (.ok x) s') :
    ∃ i m s₁ s₂ s₃, R s s₁ ∧ Runs S R (send i) s₁ (.replied m) s₂ ∧ Runs S R (serve m) s₂ x s₃ ∧ R s₃ s' := by
  have key : ∀ left s, Runs S R (retryLeft send serve attempts left) s (.ok x) s' →
      ∃ i m s₁ s₂ s₃, R s s₁ ∧ Runs S R (send i) s₁ (.replied m) s₂ ∧ Runs S R (serve m) s₂ x s₃ ∧ R s₃ s' := by
    intro left
    induction left with
    | zero =>
      intro s h
      cases (runs_pure.1 h).1
    | succ left ih =>
      intro s h
      obtain ⟨r, s₁, hone, hrest⟩ := runs_bind.1 h
      have hR : R s s₁ := hone.within hS
      cases r with
      | some response =>
        obtain ⟨hx, hend⟩ := runs_pure.1 hrest
        cases hx
        obtain ⟨m, s₂, hsend, hserve⟩ := runs_attempt hone
        exact ⟨_, m, s, s₂, s₁, refl s, hsend, hserve, hend⟩
      | none =>
        dsimp only at hrest
        split at hrest
        · cases (runs_pure.1 hrest).1
        · -- a later attempt was answered
          obtain ⟨i, m, s₂, s₃, s₄, h₂, hrest⟩ := ih s₁ hrest
          exact ⟨i, m, s₂, s₃, s₄, IsTrans.trans _ _ _ hR h₂, hrest⟩
  exact key attempts s h

end Async
