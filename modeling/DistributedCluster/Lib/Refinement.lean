/-!
# Runs and their images

A system takes steps on events. When each of its steps is the image of a step of
another system, and the other way round, then its runs are the images of the runs
of the other one.
-/

namespace System

variable {σ τ ε δ : Type}

def run (step : σ → ε → Option σ) (s : σ) : List ε → Option σ
  | [] => some s
  | e :: es => (step s e).bind fun s' => run step s' es

theorem run_cons {step : σ → ε → Option σ} {s s' : σ} {e : ε} {es : List ε} :
    run step s (e :: es) = some s' ↔ ∃ s₁, step s e = some s₁ ∧ run step s₁ es = some s' :=
  Option.bind_eq_some_iff

section Image

variable {step : σ → ε → Option σ} {step' : τ → δ → Option τ} (view : τ → σ) {ok : δ → Prop} {inv : τ → Prop}

/-- What the first can do, the second does with events that are `ok`. -/
theorem run_lift (hinv : ∀ t d t', step' t d = some t' → inv t → inv t')
    (hstep : ∀ t e s', inv t → step (view t) e = some s' → ∃ d t', ok d ∧ step' t d = some t' ∧ s' = view t')
    {es : List ε} {t : τ} {s : σ} (ht : inv t) (h : run step (view t) es = some s) :
    ∃ ds t', (∀ d ∈ ds, ok d) ∧ run step' t ds = some t' ∧ s = view t' := by
  induction es generalizing t with
  | nil =>
    cases h
    exact ⟨[], t, by simp, rfl, rfl⟩
  | cons e es ih =>
    obtain ⟨s₁, h₁, h₂⟩ := run_cons.1 h
    obtain ⟨d, t₁, hd, ht₁, rfl⟩ := hstep t e s₁ ht h₁
    obtain ⟨ds, t', hds, ht', hs⟩ := ih (hinv t d t₁ ht₁ ht) h₂
    refine ⟨d :: ds, t', ?_, run_cons.2 ⟨t₁, ht₁, ht'⟩, hs⟩
    simpa [hd] using hds

/-- What the second does with events that are `ok`, the first can do. -/
theorem run_image (hinv : ∀ t d t', step' t d = some t' → inv t → inv t')
    (hstep : ∀ t d t', inv t → ok d → step' t d = some t' → ∃ e, step (view t) e = some (view t'))
    {ds : List δ} {t t' : τ} (ht : inv t) (hds : ∀ d ∈ ds, ok d) (h : run step' t ds = some t') :
    ∃ es, run step (view t) es = some (view t') := by
  induction ds generalizing t with
  | nil =>
    cases h
    exact ⟨[], rfl⟩
  | cons d ds ih =>
    obtain ⟨t₁, h₁, h₂⟩ := run_cons.1 h
    obtain ⟨e, he⟩ := hstep t d t₁ ht (hds d List.mem_cons_self) h₁
    obtain ⟨es, hes⟩ := ih (hinv t d t₁ h₁ ht) (fun d' hd' => hds d' (List.mem_cons_of_mem _ hd')) h₂
    exact ⟨e :: es, run_cons.2 ⟨_, he, hes⟩⟩

end Image

end System
