import Mathlib.Order.Defs.Unbundled
import Mathlib.Logic.Relation
/-!
# Asynchronous programs over a shared state

A program is a tree of atomic actions. `Sem` says what each action may answer
and what it does to the state; the code between two actions is pure. One
program has three readings:

- `Runs`: it runs to its end while the rest of the system interferes by `R`.
  With `R` equality nothing interferes.
- `wp`: what holds at its end, for every interference by `R`, if each of its
  own actions stays within `G`.
- `Pool.Step`: it is one process of a pool, scheduled action by action.

`wp_runs` and `Pool.safe_steps` connect them.
-/

/-- The atomic actions of a kind of program, and what each answers. -/
structure Interface where
  Act : Type
  Ans : Act → Type

inductive Async (I : Interface) (α : Type) : Type
  | done (a : α)
  | call (e : I.Act) (k : I.Ans e → Async I α)

/-- The answers and the next states an action allows. -/
abbrev Sem (I : Interface) (σ : Type) := (e : I.Act) → σ → I.Ans e → σ → Prop

/-- Only those actions of `S` whose answer in their state is as `φ` says. -/
def Sem.restrict {I : Interface} {σ : Type} (S : Sem I σ) (φ : (e : I.Act) → σ → I.Ans e → Prop) : Sem I σ :=
  fun e s x s' => S e s x s' ∧ φ e s x

namespace Async

variable {I : Interface} {σ α β ι : Type}

def bind : Async I α → (α → Async I β) → Async I β
  | .done a, f => f a
  | .call e k, f => .call e (fun x => (k x).bind f)

instance : Monad (Async I) where
  pure := .done
  bind := bind

/-- Take one action and return its answer. -/
def perform (e : I.Act) : Async I (I.Ans e) := .call e .done

theorem bind_done (p : Async I α) : p.bind .done = p := by
  induction p with
  | done a => rfl
  | call e k ih => simp only [bind, ih]

theorem bind_assoc {γ : Type} (p : Async I α) (f : α → Async I β) (g : β → Async I γ) :
    (p.bind f).bind g = p.bind (fun a => (f a).bind g) := by
  induction p with
  | done a => rfl
  | call e k ih => simp only [bind, ih]

instance : LawfulMonad (Async I) :=
  LawfulMonad.mk' (Async I) (fun p => bind_done p) (fun _ _ => rfl) (fun p f g => bind_assoc p f g)

/-! ## Runs -/

/-- `p` runs from `s` to its end, answers `a` and leaves `s'`; before each of
its actions, and at its end, the others may have moved the state by `R`. -/
inductive Runs (S : Sem I σ) (R : σ → σ → Prop) : Async I α → σ → α → σ → Prop
  | done {a s s'} : R s s' → Runs S R (.done a) s a s'
  | call {e k s s₁ x s₂ a s'} : R s s₁ → S e s₁ x s₂ → Runs S R (k x) s₂ a s' →
      Runs S R (.call e k) s a s'

section Runs

variable {S : Sem I σ} {R : σ → σ → Prop}

@[simp] theorem runs_done {a b : α} {s s' : σ} : Runs S R (.done a) s b s' ↔ b = a ∧ R s s' :=
  ⟨fun h => by cases h; exact ⟨rfl, ‹_›⟩, fun ⟨hb, h⟩ => hb ▸ .done h⟩

@[simp] theorem runs_pure {a b : α} {s s' : σ} : Runs S R (pure a) s b s' ↔ b = a ∧ R s s' :=
  runs_done

theorem runs_call {e : I.Act} {k : I.Ans e → Async I α} {s s' : σ} {a : α} :
    Runs S R (.call e k) s a s' ↔ ∃ s₁ x s₂, R s s₁ ∧ S e s₁ x s₂ ∧ Runs S R (k x) s₂ a s' := by
  constructor
  · intro h
    cases h with
    | call h₁ h₂ h₃ => exact ⟨_, _, _, h₁, h₂, h₃⟩
  · rintro ⟨s₁, x, s₂, h₁, h₂, h₃⟩
    exact .call h₁ h₂ h₃

/-- Less interference, fewer runs. -/
theorem Runs.mono {R' : σ → σ → Prop} (hR : ∀ s s', R s s' → R' s s') {p : Async I α} {s s' : σ} {a : α}
    (h : Runs S R p s a s') : Runs S R' p s a s' := by
  induction h with
  | done h₁ => exact .done (hR _ _ h₁)
  | call h₁ h₂ _ ih => exact .call (hR _ _ h₁) h₂ ih

/-- More steps, more runs. -/
theorem Runs.of_sem {S' : Sem I σ} (hS : ∀ e s x s', S e s x s' → S' e s x s') {p : Async I α} {s s' : σ} {a : α}
    (h : Runs S R p s a s') : Runs S' R p s a s' := by
  induction h with
  | done h₁ => exact .done h₁
  | call h₁ h₂ _ ih => exact .call h₁ (hS _ _ _ _ h₂) ih

/-- A run alone is a run beside others that do nothing. -/
theorem Runs.alone [Std.Refl R] {p : Async I α} {s s' : σ} {a : α} (h : Runs S Eq p s a s') :
    Runs S R p s a s' :=
  h.mono fun s _ hs => hs ▸ refl s

variable [IsPreorder σ R]

/-- Interference before a run is part of the run. -/
theorem Runs.before {p : Async I α} {s s₁ s' : σ} {a : α} (h : R s s₁) (hp : Runs S R p s₁ a s') :
    Runs S R p s a s' := by
  cases hp with
  | done h₁ => exact .done (IsTrans.trans _ _ _ h h₁)
  | call h₁ h₂ h₃ => exact .call (IsTrans.trans _ _ _ h h₁) h₂ h₃

theorem Runs.after {p : Async I α} {s s₁ s' : σ} {a : α} (hp : Runs S R p s a s₁) (h : R s₁ s') :
    Runs S R p s a s' := by
  induction hp with
  | done h₁ => exact .done (IsTrans.trans _ _ _ h₁ h)
  | call h₁ h₂ _ ih => exact .call h₁ h₂ (ih h)

theorem runs_bind {p : Async I α} {f : α → Async I β} {s s' : σ} {b : β} :
    Runs S R (p >>= f) s b s' ↔ ∃ a s₁, Runs S R p s a s₁ ∧ Runs S R (f a) s₁ b s' := by
  constructor
  · intro h
    induction p generalizing s with
    | done a => exact ⟨a, s, .done (refl s), h⟩
    | call e k ih =>
      obtain ⟨s₁, x, s₂, h₁, h₂, h₃⟩ := runs_call.1 h
      obtain ⟨a, s₃, hp, hf⟩ := ih x h₃
      exact ⟨a, s₃, .call h₁ h₂ hp, hf⟩
  · rintro ⟨a, s₁, hp, hf⟩
    induction hp with
    | done h₁ => exact hf.before h₁
    | call h₁ h₂ _ ih => exact .call h₁ h₂ (ih hf)

/-- What every action and the others' steps keep to, a run keeps to. -/
theorem Runs.within (hS : ∀ e s x s', S e s x s' → R s s') {p : Async I α} {s s' : σ} {a : α} (h : Runs S R p s a s') :
    R s s' := by
  induction h with
  | done h₁ => exact h₁
  | call h₁ h₂ _ ih => exact IsTrans.trans _ _ _ (IsTrans.trans _ _ _ h₁ (hS _ _ _ _ h₂)) ih

omit [IsPreorder σ R] in
/-- One action, with what the others do before and after it. -/
theorem Runs.act {e : I.Act} {s s' : σ} {x : I.Ans e} (h : Runs S R (perform e) s x s') :
    ∃ s₁ s₂, R s s₁ ∧ S e s₁ x s₂ ∧ R s₂ s' := by
  obtain ⟨s₁, y, s₂, h₁, h₂, h₃⟩ := runs_call.1 h
  obtain ⟨rfl, hR⟩ := runs_done.1 h₃
  exact ⟨s₁, s₂, h₁, h₂, hR⟩

/-- Programs of one family that run one after the other, each with what it answers. -/
inductive Series (S : Sem I σ) (R : σ → σ → Prop) (p : ι → Async I α) : σ → List (ι × α) → σ → Prop
  | nil {s s'} : R s s' → Series S R p s [] s'
  | cons {i s a s₁ outcomes s'} : Runs S R (p i) s a s₁ → Series S R p s₁ outcomes s' →
      Series S R p s ((i, a) :: outcomes) s'

omit [IsPreorder σ R] in
/-- What every program of a series keeps, each of them starts from. -/
theorem Series.run_of_mem {p : ι → Async I α} {P : σ → Prop} (hP : ∀ i s a s', P s → Runs S R (p i) s a s' → P s')
    {outcomes : List (ι × α)} {s s' : σ} (h : Series S R p s outcomes s') (hs : P s) {i : ι} {a : α}
    (hmem : (i, a) ∈ outcomes) : ∃ s₁ s₂, P s₁ ∧ Runs S R (p i) s₁ a s₂ := by
  induction h with
  | nil _ => cases hmem
  | cons hrun _ ih =>
    rcases List.mem_cons.1 hmem with heq | hmem
    · cases heq
      exact ⟨_, _, hs, hrun⟩
    · exact ih (hP _ _ _ _ hs hrun) hmem

/-- If every action can answer in every state, every program can run to its end. -/
theorem Runs.total (hS : ∀ e s, ∃ x s', S e s x s') (p : Async I α) (s : σ) :
    ∃ a s', Runs S R p s a s' := by
  induction p generalizing s with
  | done a => exact ⟨a, s, .done (refl s)⟩
  | call e k ih =>
    obtain ⟨x, s₁, h⟩ := hS e s
    obtain ⟨a, s', h'⟩ := ih x s₁
    exact ⟨a, s', .call (refl s) h h'⟩

end Runs

/-- Nothing interferes: an action is just a step of the state. -/
@[simp] theorem runs_perform {S : Sem I σ} {e : I.Act} {s s' : σ} {x : I.Ans e} :
    Runs S Eq (perform e) s x s' ↔ S e s x s' := by
  rw [perform, runs_call]
  constructor
  · rintro ⟨s₁, y, s₂, rfl, h₂, h₃⟩
    obtain ⟨rfl, rfl⟩ := runs_done.1 h₃
    exact h₂
  · exact fun h => ⟨s, x, s', rfl, h, .done rfl⟩

/-- Run `p` with the answers `int` chooses. -/
def exec (int : (e : I.Act) → σ → I.Ans e × σ) : Async I α → σ → α × σ
  | .done a, s => (a, s)
  | .call e k, s => exec int (k (int e s).1) (int e s).2

@[simp] theorem exec_pure (int : (e : I.Act) → σ → I.Ans e × σ) (a : α) (s : σ) :
    exec int (pure a : Async I α) s = (a, s) := rfl

theorem exec_runs {S : Sem I σ} {R : σ → σ → Prop} [IsPreorder σ R] {int : (e : I.Act) → σ → I.Ans e × σ}
    (h : ∀ e s, S e s (int e s).1 (int e s).2) (p : Async I α) (s : σ) :
    Runs S R p s (exec int p s).1 (exec int p s).2 := by
  induction p generalizing s with
  | done a => exact .done (refl s)
  | call e k ih => exact .call (refl s) (h e s) (ih _ _)

theorem exec_bind (int : (e : I.Act) → σ → I.Ans e × σ) (p : Async I α) (f : α → Async I β) (s : σ) :
    exec int (p >>= f) s = exec int (f (exec int p s).1) (exec int p s).2 := by
  induction p generalizing s with
  | done a => rfl
  | call e k ih => exact ih _ _

/-- What a finished program answers. -/
def outcome : Async I α → Option α
  | .done a => some a
  | .call .. => none

theorem done_of_outcome {p : Async I α} {a : α} (h : p.outcome = some a) : p = .done a := by
  cases p with
  | done b => exact congrArg done (Option.some.inj h)
  | call e k => cases h

/-- The first `n` actions of `p`, with the answers `int` chooses. -/
def advance (int : (e : I.Act) → σ → I.Ans e × σ) : Nat → Async I α → σ → Async I α × σ
  | 0, p, s => (p, s)
  | _ + 1, .done a, s => (.done a, s)
  | n + 1, .call e k, s => advance int n (k (int e s).1) (int e s).2

/-- The answers that `int` chooses for `p` are as `φ` says. -/
def Meets (int : (e : I.Act) → σ → I.Ans e × σ) (φ : (e : I.Act) → σ → I.Ans e → Prop) : Async I α → σ → Prop
  | .done _, _ => True
  | .call e k, s => φ e s (int e s).1 ∧ Meets int φ (k (int e s).1) (int e s).2

instance Meets.decidable {int : (e : I.Act) → σ → I.Ans e × σ} {φ : (e : I.Act) → σ → I.Ans e → Prop}
    [∀ e s x, Decidable (φ e s x)] : (p : Async I α) → (s : σ) → Decidable (Meets int φ p s)
  | .done _, _ => .isTrue trivial
  | .call e k, s =>
    have : Decidable (Meets int φ (k (int e s).1) (int e s).2) := Meets.decidable _ _
    inferInstanceAs (Decidable (φ e s (int e s).1 ∧ Meets int φ (k (int e s).1) (int e s).2))

theorem Meets.runs {S : Sem I σ} {R : σ → σ → Prop} [IsPreorder σ R] {int : (e : I.Act) → σ → I.Ans e × σ}
    {φ : (e : I.Act) → σ → I.Ans e → Prop} (h : ∀ e s, S e s (int e s).1 (int e s).2) {p : Async I α} {s : σ}
    (hp : Meets int φ p s) : Runs (S.restrict φ) R p s (exec int p s).1 (exec int p s).2 := by
  induction p generalizing s with
  | done a => exact .done (refl s)
  | call e k ih => exact .call (refl s) ⟨h e s, hp.1⟩ (ih _ hp.2)

/-- A part of the state that no action changes as long as they are as `φ` says. -/
theorem Meets.keeps {β : Type} {int : (e : I.Act) → σ → I.Ans e × σ} {φ : (e : I.Act) → σ → I.Ans e → Prop} {f : σ → β}
    (h : ∀ e s, φ e s (int e s).1 → f (int e s).2 = f s) {p : Async I α} {s : σ} (hp : Meets int φ p s) :
    f (exec int p s).2 = f s := by
  induction p generalizing s with
  | done a => rfl
  | call e k ih => exact (ih _ hp.2).trans (h e s hp.1)

/-- Only the answers to the first `n` actions. -/
def MeetsFor (int : (e : I.Act) → σ → I.Ans e × σ) (φ : (e : I.Act) → σ → I.Ans e → Prop) : Nat → Async I α → σ → Prop
  | 0, _, _ => True
  | _ + 1, .done _, _ => True
  | n + 1, .call e k, s => φ e s (int e s).1 ∧ MeetsFor int φ n (k (int e s).1) (int e s).2

instance MeetsFor.decidable {int : (e : I.Act) → σ → I.Ans e × σ} {φ : (e : I.Act) → σ → I.Ans e → Prop}
    [∀ e s x, Decidable (φ e s x)] : (n : Nat) → (p : Async I α) → (s : σ) → Decidable (MeetsFor int φ n p s)
  | 0, _, _ => .isTrue trivial
  | _ + 1, .done _, _ => .isTrue trivial
  | n + 1, .call e k, s =>
    have : Decidable (MeetsFor int φ n (k (int e s).1) (int e s).2) := MeetsFor.decidable n _ _
    inferInstanceAs (Decidable (φ e s (int e s).1 ∧ MeetsFor int φ n (k (int e s).1) (int e s).2))

/-! ## A look at each element of a list -/

/-- Each element has had an answer as `φ` says, and those that passed are kept. -/
inductive Chosen (φ : β → Bool → Prop) : List β → List β → Prop
  | nil : Chosen φ [] []
  | pass {b bs kept} : φ b true → Chosen φ bs kept → Chosen φ (b :: bs) (b :: kept)
  | fail {b bs kept} : φ b false → Chosen φ bs kept → Chosen φ (b :: bs) kept

theorem Chosen.cons {φ : β → Bool → Prop} {b : β} {x : Bool} {bs kept : List β} (hx : φ b x) (h : Chosen φ bs kept) :
    Chosen φ (b :: bs) (bif x then b :: kept else kept) := by
  cases x with
  | true => exact .pass hx h
  | false => exact .fail hx h

theorem Chosen.mono {φ ψ : β → Bool → Prop} (hφ : ∀ b x, φ b x → ψ b x) {bs kept : List β} (h : Chosen φ bs kept) :
    Chosen ψ bs kept := by
  induction h with
  | nil => exact .nil
  | pass hx _ ih => exact .pass (hφ _ _ hx) ih
  | fail hx _ ih => exact .fail (hφ _ _ hx) ih

theorem Chosen.of_mem {φ : β → Bool → Prop} {bs kept : List β} (h : Chosen φ bs kept) {b : β} (hb : b ∈ kept) : φ b true := by
  induction h with
  | nil => cases hb
  | pass hx _ ih =>
    rcases List.mem_cons.1 hb with rfl | hb
    · exact hx
    · exact ih hb
  | fail _ _ ih => exact ih hb

theorem Chosen.eq_filter {f : β → Bool} {bs kept : List β} (h : Chosen (fun b x => x = f b) bs kept) : kept = bs.filter f := by
  induction h with
  | nil => rfl
  | pass hx _ ih => rw [List.filter_cons_of_pos hx.symm, ih]
  | fail hx _ ih => rw [List.filter_cons_of_neg (Bool.eq_false_iff.1 hx.symm), ih]

theorem filterAuxM_append (look : β → Async I Bool) (bs acc : List β) :
    List.filterAuxM look bs acc = (List.filterAuxM look bs [] >>= fun kept => pure (kept ++ acc)) := by
  induction bs generalizing acc with
  | nil => rfl
  | cons b bs ih =>
    simp only [List.filterAuxM, LawfulMonad.bind_assoc]
    refine congrArg _ (funext fun x => ?_)
    rw [ih (bif x then b :: acc else acc), ih (bif x then [b] else [])]
    cases x <;> simp

theorem filterM_cons (look : β → Async I Bool) (b : β) (bs : List β) : (b :: bs).filterM look =
    (do
      let x ← look b
      let kept ← bs.filterM look
      pure (bif x then b :: kept else kept)) := by
  simp only [List.filterM, List.filterAuxM, LawfulMonad.bind_assoc]
  refine congrArg _ (funext fun x => ?_)
  rw [filterAuxM_append]
  cases x <;> simp

/-- Looks that change nothing add up to one filter. -/
theorem runs_filterM {S : Sem I σ} {look : β → Async I Bool} {f : β → Bool} {s s' : σ}
    (h : ∀ b x s', Runs S Eq (look b) s x s' → x = f b ∧ s' = s) {bs kept : List β}
    (hrun : Runs S Eq (bs.filterM look) s kept s') : kept = bs.filter f ∧ s' = s := by
  induction bs generalizing kept s' with
  | nil =>
    obtain ⟨rfl, rfl⟩ := runs_pure.1 hrun
    exact ⟨rfl, rfl⟩
  | cons b bs ih =>
    rw [filterM_cons] at hrun
    obtain ⟨x, s₁, hlook, hrest⟩ := runs_bind.1 hrun
    obtain ⟨rfl, rfl⟩ := h b x s₁ hlook
    obtain ⟨others, s₂, hothers, hend⟩ := runs_bind.1 hrest
    obtain ⟨rfl, rfl⟩ := ih hothers
    obtain ⟨rfl, rfl⟩ := runs_pure.1 hend
    refine ⟨?_, rfl⟩
    cases hb : f b <;> simp [hb]

/-! ## What holds at the end -/

/-- Whatever the others do within `R`, each action of `p` stays within `G` and
`p` ends with `Q`. -/
def wp (S : Sem I σ) (R G : σ → σ → Prop) : Async I α → (α → σ → Prop) → σ → Prop
  | .done a, Q, s => ∀ s₁, R s s₁ → Q a s₁
  | .call e k, Q, s => ∀ s₁, R s s₁ → ∀ x s₂, S e s₁ x s₂ → G s₁ s₂ ∧ wp S R G (k x) Q s₂

/-- From any state with `P`, `p` keeps to `G` and ends with `Q`. -/
def Triple (S : Sem I σ) (R G : σ → σ → Prop) (P : σ → Prop) (p : Async I α) (Q : α → σ → Prop) : Prop :=
  ∀ s, P s → wp S R G p Q s

/-- Interference by `R` does not undo `P`. -/
def Stable (R : σ → σ → Prop) (P : σ → Prop) : Prop := ∀ s s', R s s' → P s → P s'

theorem stable_eq (P : σ → Prop) : Stable Eq P := fun _ _ h hs => h ▸ hs

theorem Stable.assume {R : σ → σ → Prop} {P : σ → Prop} (h : Stable R P) (φ : Prop) :
    Stable R fun s => φ ∧ P s :=
  fun s s' hR hs => ⟨hs.1, h s s' hR hs.2⟩

section Logic

variable {S : Sem I σ} {R G : σ → σ → Prop}

theorem wp_mono {p : Async I α} {Q Q' : α → σ → Prop} (hQ : ∀ a s, Q a s → Q' a s) {s : σ}
    (h : wp S R G p Q s) : wp S R G p Q' s := by
  induction p generalizing s with
  | done a => exact fun s₁ h₁ => hQ a s₁ (h s₁ h₁)
  | call e k ih => exact fun s₁ h₁ x s₂ h₂ => ⟨(h s₁ h₁ x s₂ h₂).1, ih x (h s₁ h₁ x s₂ h₂).2⟩

theorem wp_weaken {G' : σ → σ → Prop} (hG : ∀ s s', G s s' → G' s s') {p : Async I α} {Q : α → σ → Prop} {s : σ}
    (h : wp S R G p Q s) : wp S R G' p Q s := by
  induction p generalizing s with
  | done a => exact h
  | call e k ih => exact fun s₁ h₁ x s₂ h₂ => ⟨hG _ _ (h s₁ h₁ x s₂ h₂).1, ih x (h s₁ h₁ x s₂ h₂).2⟩

theorem wp_before [IsTrans σ R] {p : Async I α} {Q : α → σ → Prop} {s s₁ : σ} (h : wp S R G p Q s)
    (h₁ : R s s₁) : wp S R G p Q s₁ := by
  cases p with
  | done a => exact fun s₂ h₂ => h s₂ (IsTrans.trans _ _ _ h₁ h₂)
  | call e k => exact fun s₂ h₂ => h s₂ (IsTrans.trans _ _ _ h₁ h₂)

theorem wp_bind [Std.Refl R] {p : Async I α} {f : α → Async I β} {Q : β → σ → Prop} {s : σ}
    (h : wp S R G p (fun a => wp S R G (f a) Q) s) : wp S R G (p >>= f) Q s := by
  induction p generalizing s with
  | done a => exact h s (refl s)
  | call e k ih => exact fun s₁ h₁ x s₂ h₂ => ⟨(h s₁ h₁ x s₂ h₂).1, ih x (h s₁ h₁ x s₂ h₂).2⟩

/-- What no step of `p` or of the others undoes is still true at the end. -/
theorem wp_frame {H : σ → Prop} (hR : Stable R H) (hG : Stable G H) {p : Async I α} {Q : α → σ → Prop} {s : σ}
    (h : wp S R G p Q s) (hs : H s) : wp S R G p (fun _ => H) s := by
  induction p generalizing s with
  | done a => exact fun s₁ h₁ => hR s s₁ h₁ hs
  | call e k ih =>
    intro s₁ h₁ x s₂ h₂
    obtain ⟨hstep, hk⟩ := h s₁ h₁ x s₂ h₂
    exact ⟨hstep, ih x hk (hG s₁ s₂ hstep (hR s s₁ h₁ hs))⟩

/-- What `wp` promises is true of every run. -/
theorem wp_runs {p : Async I α} {Q : α → σ → Prop} {s s' : σ} {a : α} (h : wp S R G p Q s)
    (hp : Runs S R p s a s') : Q a s' := by
  induction hp with
  | done h₁ => exact h _ h₁
  | call h₁ h₂ _ ih => exact ih (h _ h₁ _ _ h₂).2

/-- A run that nobody interferes with stays within `G`. -/
theorem wp_guarantee [Std.Refl R] [IsPreorder σ G] {p : Async I α} {Q : α → σ → Prop} {s s' : σ} {a : α}
    (h : wp S R G p Q s) (hp : Runs S Eq p s a s') : G s s' := by
  induction hp with
  | done h₁ => exact h₁ ▸ refl _
  | call h₁ h₂ _ ih =>
    subst h₁
    obtain ⟨hG, hk⟩ := h _ (refl _) _ _ h₂
    exact IsTrans.trans _ _ _ hG (ih hk)

theorem Triple.pure {P : σ → Prop} {Q : α → σ → Prop} {a : α} (hQ : Stable R (Q a)) (h : ∀ s, P s → Q a s) :
    Triple S R G P (pure a) Q :=
  fun s hs s₁ h₁ => hQ s s₁ h₁ (h s hs)

theorem Triple.perform {P : σ → Prop} {e : I.Act} {Q : I.Ans e → σ → Prop} (hst : Stable R P)
    (hQ : ∀ x, Stable R (Q x)) (h : ∀ s x s', P s → S e s x s' → G s s' ∧ Q x s') :
    Triple S R G P (perform e) Q := by
  intro s hs s₁ h₁ x s₂ h₂
  obtain ⟨hG, hx⟩ := h s₁ x s₂ (hst s s₁ h₁ hs) h₂
  exact ⟨hG, fun s₃ h₃ => hQ x s₂ s₃ h₃ hx⟩

theorem Triple.bind [Std.Refl R] {P : σ → Prop} {p : Async I α} {Q : α → σ → Prop} {f : α → Async I β}
    {Q' : β → σ → Prop} (hp : Triple S R G P p Q) (hf : ∀ a, Triple S R G (Q a) (f a) Q') :
    Triple S R G P (p >>= f) Q' :=
  fun s hs => wp_bind (wp_mono (fun a s₁ h₁ => hf a s₁ h₁) (hp s hs))

theorem Triple.post {P : σ → Prop} {p : Async I α} {Q Q' : α → σ → Prop} (hp : Triple S R G P p Q)
    (hQ : ∀ a s, Q a s → Q' a s) : Triple S R G P p Q' :=
  fun s hs => wp_mono hQ (hp s hs)

theorem Triple.pre {P P' : σ → Prop} {p : Async I α} {Q : α → σ → Prop} (hp : Triple S R G P p Q)
    (hP : ∀ s, P' s → P s) : Triple S R G P' p Q :=
  fun s hs => hp s (hP s hs)

theorem Triple.frame {P H : σ → Prop} {p : Async I α} {Q : α → σ → Prop} (hp : Triple S R G P p Q) (hR : Stable R H)
    (hG : Stable G H) (hP : ∀ s, H s → P s) : Triple S R G H p fun _ => H :=
  fun s hs => wp_frame hR hG (hp s (hP s hs)) hs

/-- A fact of the precondition that does not mention the state. -/
theorem Triple.assume {P : σ → Prop} {φ : Prop} {p : Async I α} {Q : α → σ → Prop}
    (hp : φ → Triple S R G P p Q) : Triple S R G (fun s => φ ∧ P s) p Q :=
  fun s hs => hp hs.1 s hs.2

/-- The looks leave `P` as it is. -/
theorem Triple.filterM [Std.Refl R] {P : σ → Prop} (hP : Stable R P) {φ : β → Bool → Prop} {look : β → Async I Bool}
    (h : ∀ b, Triple S R G P (look b) fun x s => φ b x ∧ P s) (bs : List β) :
    Triple S R G P (bs.filterM look) fun kept s => Chosen φ bs kept ∧ P s := by
  induction bs with
  | nil => exact Triple.pure (hP.assume _) fun _ hs => ⟨.nil, hs⟩
  | cons b bs ih =>
    rw [filterM_cons]
    refine (h b).bind fun x => Triple.assume fun hx => ih.bind fun kept => Triple.assume fun hkept => ?_
    exact Triple.pure (hP.assume _) fun _ hs => ⟨hkept.cons hx, hs⟩

theorem Triple.runs {P : σ → Prop} {p : Async I α} {Q : α → σ → Prop} (hp : Triple S R G P p Q) {s s' : σ}
    {a : α} (hs : P s) (h : Runs S R p s a s') : Q a s' :=
  wp_runs (hp s hs) h

end Logic

/-! ## Invariants -/

/-- The steps that keep `Inv`. -/
def Keep (Inv : σ → Prop) (s s' : σ) : Prop := Inv s → Inv s'

instance (Inv : σ → Prop) : IsPreorder σ (Keep Inv) where
  refl _ h := h
  trans _ _ _ h h' hs := h' (h hs)

/-- `p` keeps `Inv` as long as the others do, and returns what `Q` says. -/
def Keeps (S : Sem I σ) (Inv : σ → Prop) (p : Async I α) (Q : α → Prop) : Prop :=
  Triple S (Keep Inv) (Keep Inv) Inv p fun a s => Q a ∧ Inv s

section Keeps

variable {S : Sem I σ} {Inv : σ → Prop}

theorem stable_keep (φ : Prop) : Stable (Keep Inv) fun s => φ ∧ Inv s := fun _ _ h hs => ⟨hs.1, h hs.2⟩

theorem Keeps.pure {a : α} {Q : α → Prop} (h : Q a) : Keeps S Inv (pure a) Q :=
  Triple.pure (stable_keep _) fun _ hs => ⟨h, hs⟩

theorem Keeps.perform {e : I.Act} {Q : I.Ans e → Prop} (h : ∀ s x s', Inv s → S e s x s' → Q x ∧ Inv s') :
    Keeps S Inv (perform e) Q :=
  Triple.perform (fun _ _ h => h) (fun _ => stable_keep _) fun s x s' hs hstep =>
    ⟨fun _ => (h s x s' hs hstep).2, h s x s' hs hstep⟩

theorem Keeps.bind {p : Async I α} {Q : α → Prop} {f : α → Async I β} {Q' : β → Prop} (hp : Keeps S Inv p Q)
    (hf : ∀ a, Q a → Keeps S Inv (f a) Q') : Keeps S Inv (p >>= f) Q' :=
  Triple.bind hp fun a => Triple.assume (hf a)

/-- An action of which nothing but `Inv` is asked. -/
theorem Keeps.act {e : I.Act} (h : ∀ s x s', Inv s → S e s x s' → Inv s') : Keeps S Inv (Async.perform e) fun _ => True :=
  Keeps.perform fun s x s' hs hstep => ⟨trivial, h s x s' hs hstep⟩

theorem Keeps.next {p : Async I α} {f : α → Async I β} {Q' : β → Prop} (hp : Keeps S Inv p fun _ => True)
    (hf : ∀ a, Keeps S Inv (f a) Q') : Keeps S Inv (p >>= f) Q' :=
  hp.bind fun a _ => hf a

theorem Keeps.post {p : Async I α} {Q Q' : α → Prop} (hp : Keeps S Inv p Q) (hQ : ∀ a, Q a → Q' a) :
    Keeps S Inv p Q' :=
  Triple.post hp fun a _ hs => ⟨hQ a hs.1, hs.2⟩

theorem Keeps.filterM {φ : β → Bool → Prop} {look : β → Async I Bool} (h : ∀ b, Keeps S Inv (look b) (φ b)) (bs : List β) :
    Keeps S Inv (bs.filterM look) (Chosen φ bs) :=
  Triple.filterM (R := Keep Inv) (fun _ _ h => h) h bs

/-- Steps of `H` that keep `Inv`. -/
def KeepWithin (H : σ → σ → Prop) (Inv : σ → Prop) (s s' : σ) : Prop := H s s' ∧ Keep Inv s s'

instance (H : σ → σ → Prop) [IsPreorder σ H] : IsPreorder σ (KeepWithin H Inv) where
  refl s := ⟨refl s, refl s⟩
  trans _ _ _ h h' := ⟨IsTrans.trans _ _ _ h.1 h'.1, IsTrans.trans _ _ _ h.2 h'.2⟩

theorem wp_within {H : σ → σ → Prop} (hH : ∀ e s x s', S e s x s' → H s s') {p : Async I α} {Q : α → σ → Prop} {s : σ}
    (h : wp S (Keep Inv) (Keep Inv) p Q s) : wp S (KeepWithin H Inv) (KeepWithin H Inv) p Q s := by
  induction p generalizing s with
  | done a => exact fun s₁ h₁ => h s₁ h₁.2
  | call e k ih =>
    intro s₁ h₁ x s₂ h₂
    obtain ⟨hkeep, hk⟩ := h s₁ h₁.2 x s₂ h₂
    exact ⟨⟨hH e s₁ x s₂ h₂, hkeep⟩, ih x hk⟩

/-- What every action keeps to may be assumed of the others as well. -/
theorem Keeps.within {H : σ → σ → Prop} (hH : ∀ e s x s', S e s x s' → H s s') {p : Async I α} {Q : α → Prop}
    (hp : Keeps S Inv p Q) : Triple S (KeepWithin H Inv) (KeepWithin H Inv) Inv p fun a s => Q a ∧ Inv s :=
  fun s hs => wp_within hH (hp s hs)

/-- Alone, `p` keeps `Inv`. -/
theorem Keeps.runs {p : Async I α} {Q : α → Prop} (hp : Keeps S Inv p Q) {s s' : σ} {a : α} (hs : Inv s)
    (h : Runs S Eq p s a s') : Q a ∧ Inv s' :=
  Triple.runs hp hs h.alone

end Keeps

/-! ## Pools of processes -/

/-- Running processes, each with what it is for. -/
abbrev Pool (ι : Type) (I : Interface) (α : Type) := List (ι × Async I α)

namespace Pool

/-- One step of a pool: a process takes its next action, a finished one is
removed, a new one starts, or something outside the pool moves the state. -/
inductive Step (S : ι → Sem I σ) (spawn : σ → Pool ι I α → ι → Async I α → Prop)
    (env : σ → Pool ι I α → σ → Prop) : σ × Pool ι I α → σ × Pool ι I α → Prop
  | run {s s' l₁ l₂} (i : ι) (e : I.Act) (k : I.Ans e → Async I α) (x : I.Ans e) : S i e s x s' →
      Step S spawn env (s, l₁ ++ (i, .call e k) :: l₂) (s', l₁ ++ (i, k x) :: l₂)
  | retire {s l₁ l₂} (i a) : Step S spawn env (s, l₁ ++ (i, .done a) :: l₂) (s, l₁ ++ l₂)
  | spawn {s l} (i p) : spawn s l i p → Step S spawn env (s, l) (s, (i, p) :: l)
  | env {s l} (s') : env s l s' → Step S spawn env (s, l) (s', l)

/-- A run of the pool: any number of steps. -/
abbrev Steps (S : ι → Sem I σ) (spawn : σ → Pool ι I α → ι → Async I α → Prop)
    (env : σ → Pool ι I α → σ → Prop) : σ × Pool ι I α → σ × Pool ι I α → Prop :=
  Relation.ReflTransGen (Step S spawn env)

variable {S : ι → Sem I σ} {spawn : σ → Pool ι I α → ι → Async I α → Prop}
  {env : σ → Pool ι I α → σ → Prop}

/-- Every process of the pool does what it is for, and what it does is within
what the others rely on. -/
def Safe (S : ι → Sem I σ) (R : ι → σ → σ → Prop) (Q : ι → α → σ → Prop) (c : σ × Pool ι I α) : Prop :=
  ∀ ip ∈ c.2, wp (S ip.1) (R ip.1) (fun s s' => ∀ j, R j s s') ip.2 (Q ip.1) c.1

variable {R : ι → σ → σ → Prop} {Q : ι → α → σ → Prop}

theorem safe_step [∀ i, IsPreorder σ (R i)]
    (hspawn : ∀ s l i p, spawn s l i p → wp (S i) (R i) (fun s s' => ∀ j, R j s s') p (Q i) s)
    (henv : ∀ s l s', env s l s' → ∀ ip ∈ l, R ip.1 s s')
    {c c' : σ × Pool ι I α} (h : Step S spawn env c c') (hc : Safe S R Q c) : Safe S R Q c' := by
  cases h with
  | run i e k x hS =>
    obtain ⟨hG, hk⟩ := hc (i, .call e k) (by simp) _ (refl _) _ _ hS
    intro ip hip
    simp only [List.mem_append, List.mem_cons] at hip
    rcases hip with hip | rfl | hip
    · exact wp_before (hc ip (by simp [hip])) (hG ip.1)
    · exact hk
    · exact wp_before (hc ip (by simp [hip])) (hG ip.1)
  | retire i a =>
    intro ip hip
    refine hc ip ?_
    simp only [List.mem_append, List.mem_cons] at hip ⊢
    exact hip.imp id .inr
  | spawn i p hsp =>
    intro ip hip
    rcases List.mem_cons.1 hip with rfl | hip
    · exact hspawn _ _ _ _ hsp
    · exact hc ip hip
  | env s' he => exact fun ip hip => wp_before (hc ip hip) (henv _ _ _ he ip hip)

/-- The rule for pools: check each process by itself, against the others' `R`. -/
theorem safe_steps [∀ i, IsPreorder σ (R i)]
    (hspawn : ∀ s l i p, spawn s l i p → wp (S i) (R i) (fun s s' => ∀ j, R j s s') p (Q i) s)
    (henv : ∀ s l s', env s l s' → ∀ ip ∈ l, R ip.1 s s')
    {c c' : σ × Pool ι I α} (h : Steps S spawn env c c') (hc : Safe S R Q c) : Safe S R Q c' := by
  induction h with
  | refl => exact hc
  | tail _ h ih => exact safe_step hspawn henv h ih

/-- A finished process of a safe pool has done what it is for. -/
theorem Safe.done [∀ i, IsPreorder σ (R i)] {s : σ} {l : Pool ι I α} (hc : Safe S R Q (s, l)) {i : ι} {a : α}
    (h : (i, Async.done a) ∈ l) : Q i a s :=
  hc (i, .done a) h s (refl s)

/-- One process of a pool may take some actions while the others wait. -/
theorem steps_advance {i : ι} {int : (e : I.Act) → σ → I.Ans e × σ} (h : ∀ e s, S i e s (int e s).1 (int e s).2)
    (n : Nat) (p : Async I α) (s : σ) (l₁ l₂ : Pool ι I α) :
    Steps S spawn env (s, l₁ ++ (i, p) :: l₂) ((advance int n p s).2, l₁ ++ (i, (advance int n p s).1) :: l₂) := by
  induction n generalizing p s with
  | zero => exact .refl
  | succ n ih =>
    cases p with
    | done a => exact .refl
    | call e k => exact .head (.run i e k _ (h e s)) (ih _ _)

/-- It may do so if its answers are as `φ` says. -/
theorem steps_advance_meets {i : ι} {S₀ : Sem I σ} {φ : (e : I.Act) → σ → I.Ans e → Prop} (hS : S i = S₀.restrict φ)
    {int : (e : I.Act) → σ → I.Ans e × σ} (h : ∀ e s, S₀ e s (int e s).1 (int e s).2)
    {n : Nat} {p : Async I α} {s : σ} (hmeets : MeetsFor int φ n p s) (l₁ l₂ : Pool ι I α) :
    Steps S spawn env (s, l₁ ++ (i, p) :: l₂) ((advance int n p s).2, l₁ ++ (i, (advance int n p s).1) :: l₂) := by
  induction n generalizing p s with
  | zero => exact .refl
  | succ n ih =>
    cases p with
    | done a => exact .refl
    | call e k =>
      have hact : S i e s (int e s).1 (int e s).2 := by
        rw [hS]
        exact ⟨h e s, hmeets.1⟩
      exact .head (.run i e k _ hact) (ih hmeets.2)

/-- One process of a pool may run alone for a while. -/
theorem steps_bind {β : Type} {i : ι} {p : Async I β} {f : β → Async I α} {s s' : σ} {b : β} (h : Runs (S i) Eq p s b s')
    (l₁ l₂ : Pool ι I α) : Steps S spawn env (s, l₁ ++ (i, p.bind f) :: l₂) (s', l₁ ++ (i, f b) :: l₂) := by
  induction h with
  | done h => rw [h]; exact .refl
  | call h₁ h₂ _ ih => exact .head (h₁ ▸ .run i _ _ _ h₂) ih

/-- One process of a pool may run alone to its end. -/
theorem steps_of_runs {i : ι} {p : Async I α} {s s' : σ} {a : α} (h : Runs (S i) Eq p s a s')
    (l₁ l₂ : Pool ι I α) : Steps S spawn env (s, l₁ ++ (i, p) :: l₂) (s', l₁ ++ (i, .done a) :: l₂) := by
  have hsteps : Steps S spawn env (s, l₁ ++ (i, p.bind .done) :: l₂) (s', l₁ ++ (i, .done a) :: l₂) := steps_bind h l₁ l₂
  rw [bind_done] at hsteps
  exact hsteps

end Pool
end Async
