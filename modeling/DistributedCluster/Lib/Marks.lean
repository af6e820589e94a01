import DistributedCluster.Lib.Discipline
/-!
# What a run begins and ends

A run finds some processes in its pool and starts others. In a marked pool every
process says which it is, and what began in the run and has been removed since is
remembered.
-/

namespace Async

variable {I : Interface} {ι σ γ α : Type}

def is_over : Async I α → Bool
  | .done _ => true
  | .call .. => false

namespace Pool

/-- Each process with whether it began in the run, and those that did and are gone. -/
structure Marked (ι : Type) (I : Interface) (α : Type) where
  pool : Pool (ι × Bool) I α
  gone : List ι

def unmark (l : Pool (ι × Bool) I α) : Pool ι I α := l.map fun ip => (ip.1.1, ip.2)

namespace Marked

/-- Nothing has begun. -/
def before (l : Pool ι I α) : Marked ι I α := ⟨l.map fun ip => ((ip.1, false), ip.2), []⟩

/-- The processes of some kind that have begun in the run and ended. -/
def ended (P : ι → Bool) (m : Marked ι I α) : Nat :=
  m.pool.countP (fun ip => ip.1.2 && P ip.1.1 && ip.2.is_over) + m.gone.countP P

inductive Step (S : ι → Sem I σ) (spawn : σ → Pool ι I α → ι → Async I α → Prop) (env : σ → Pool ι I α → σ → Prop) :
    σ × Marked ι I α → σ × Marked ι I α → Prop
  | run {s s' l₁ l₂ gone} (i : ι × Bool) (e : I.Act) (k : I.Ans e → Async I α) (x : I.Ans e) : S i.1 e s x s' →
      Step S spawn env (s, ⟨l₁ ++ (i, .call e k) :: l₂, gone⟩) (s', ⟨l₁ ++ (i, k x) :: l₂, gone⟩)
  | retire {s l₁ l₂ gone} (i : ι × Bool) (a : α) :
      Step S spawn env (s, ⟨l₁ ++ (i, .done a) :: l₂, gone⟩) (s, ⟨l₁ ++ l₂, if i.2 then i.1 :: gone else gone⟩)
  | spawn {s l gone} (i : ι) (p : Async I α) : spawn s (unmark l) i p →
      Step S spawn env (s, ⟨l, gone⟩) (s, ⟨((i, true), p) :: l, gone⟩)
  | env {s l gone} (s' : σ) : env s (unmark l) s' → Step S spawn env (s, ⟨l, gone⟩) (s', ⟨l, gone⟩)

abbrev Steps (S : ι → Sem I σ) (spawn : σ → Pool ι I α → ι → Async I α → Prop) (env : σ → Pool ι I α → σ → Prop) :
    σ × Marked ι I α → σ × Marked ι I α → Prop :=
  Relation.ReflTransGen (Step S spawn env)

variable {S : ι → Sem I σ} {spawn : σ → Pool ι I α → ι → Async I α → Prop} {env : σ → Pool ι I α → σ → Prop}

@[simp] theorem unmark_before (l : Pool ι I α) : unmark (before l).pool = l :=
  (List.map_map ..).trans (List.map_id l)

/-! ## Every run has its marks -/

theorem exists_step {c c' : σ × Pool ι I α} (h : Pool.Step S spawn env c c') {m : Marked ι I α} (hm : unmark m.pool = c.2) :
    ∃ m', unmark m'.pool = c'.2 ∧ Step S spawn env (c.1, m) (c'.1, m') := by
  obtain ⟨l, gone⟩ := m
  cases h with
  | run i e k x hS =>
    obtain ⟨m₁, rest, rfl, rfl, hrest⟩ := List.map_eq_append_iff.1 hm
    obtain ⟨⟨i, p⟩, m₂, rfl, hp, rfl⟩ := List.map_eq_cons_iff.1 hrest
    cases hp
    exact ⟨⟨m₁ ++ (i, k x) :: m₂, gone⟩, by simp [unmark], .run i e k x hS⟩
  | retire i a =>
    obtain ⟨m₁, rest, rfl, rfl, hrest⟩ := List.map_eq_append_iff.1 hm
    obtain ⟨⟨i, p⟩, m₂, rfl, hp, rfl⟩ := List.map_eq_cons_iff.1 hrest
    cases hp
    exact ⟨_, by simp [unmark], .retire i a⟩
  | spawn i p hsp => exact ⟨⟨((i, true), p) :: l, gone⟩, congrArg _ hm, .spawn i p (hm ▸ hsp)⟩
  | env s' he => exact ⟨⟨l, gone⟩, hm, .env s' (hm ▸ he)⟩

theorem exists_of_steps {c c' : σ × Pool ι I α} (h : Pool.Steps S spawn env c c') :
    ∃ m, unmark m.pool = c'.2 ∧ Steps S spawn env (c.1, before c.2) (c'.1, m) := by
  induction h with
  | refl => exact ⟨before c.2, unmark_before _, .refl⟩
  | tail _ hstep ih =>
    obtain ⟨m, hm, hsteps⟩ := ih
    obtain ⟨m', hm', hstep'⟩ := exists_step hstep hm
    exact ⟨m', hm', hsteps.tail hstep'⟩

/-! ## The rule -/

variable {D : ι × Bool → Discipline I γ} {Inv : List ι → σ → Multiset γ → Prop} {Q : ι × Bool → α → γ → Prop}

/-- What is removed ends with `Q`, and the invariant may go on to say so. -/
theorem tracked_step
    (hrun : ∀ gone i s g gs e x s', Inv gone s (g ::ₘ gs) → (D i).may g e → S i.1 e s x s' →
      (D i).gives g e x ∧ Inv gone s' ((D i).next g e x ::ₘ gs))
    (hretire : ∀ gone i a s g gs, Inv gone s (g ::ₘ gs) → Q i a g → Inv (if i.2 then i.1 :: gone else gone) s gs)
    (hspawn : ∀ gone s l i p, Tracked D (Inv gone) Q (s, l) → spawn s (unmark l) i p →
      Tracked D (Inv gone) Q (s, ((i, true), p) :: l))
    (henv : ∀ gone s l s' gs, Inv gone s gs → env s l s' → Inv gone s' gs)
    {c c' : σ × Marked ι I α} (h : Step S spawn env c c') (hc : Tracked D (Inv c.2.gone) Q (c.1, c.2.pool)) :
    Tracked D (Inv c'.2.gone) Q (c'.1, c'.2.pool) := by
  cases h with
  | run i e k x hS =>
    obtain ⟨g, gs, hinv, hobeys, hgoes, -⟩ := hc.process
    obtain ⟨hgives, hinv'⟩ := hrun _ i _ g gs e x _ hinv hobeys.1 hS
    exact hgoes _ _ _ hinv' (hobeys.2 x hgives)
  | retire i a =>
    obtain ⟨g, gs, hinv, hobeys, -, hends⟩ := hc.process
    exact hends _ (hretire _ i a _ g gs hinv hobeys)
  | spawn i p hsp => exact hspawn _ _ _ i p hc hsp
  | env s' he =>
    obtain ⟨l, hl, hobeys, hinv⟩ := hc
    exact ⟨l, hl, hobeys, henv _ _ _ _ _ hinv he⟩

theorem tracked_steps
    (hrun : ∀ gone i s g gs e x s', Inv gone s (g ::ₘ gs) → (D i).may g e → S i.1 e s x s' →
      (D i).gives g e x ∧ Inv gone s' ((D i).next g e x ::ₘ gs))
    (hretire : ∀ gone i a s g gs, Inv gone s (g ::ₘ gs) → Q i a g → Inv (if i.2 then i.1 :: gone else gone) s gs)
    (hspawn : ∀ gone s l i p, Tracked D (Inv gone) Q (s, l) → spawn s (unmark l) i p →
      Tracked D (Inv gone) Q (s, ((i, true), p) :: l))
    (henv : ∀ gone s l s' gs, Inv gone s gs → env s l s' → Inv gone s' gs)
    {c c' : σ × Marked ι I α} (h : Steps S spawn env c c') (hc : Tracked D (Inv c.2.gone) Q (c.1, c.2.pool)) :
    Tracked D (Inv c'.2.gone) Q (c'.1, c'.2.pool) := by
  induction h with
  | refl => exact hc
  | tail _ h ih => exact tracked_step hrun hretire hspawn henv h ih

/-- One process may run alone to its end. -/
theorem steps_of_runs {i : ι × Bool} {p : Async I α} {s s' : σ} {a : α} (h : Runs (S i.1) Eq p s a s')
    (l₁ l₂ : Pool (ι × Bool) I α) (gone : List ι) :
    Steps S spawn env (s, ⟨l₁ ++ (i, p) :: l₂, gone⟩) (s', ⟨l₁ ++ (i, .done a) :: l₂, gone⟩) := by
  induction h with
  | done h => rw [h]
  | call h₁ h₂ _ ih => exact .head (h₁ ▸ .run i _ _ _ h₂) ih

end Marked

end Pool
end Async
