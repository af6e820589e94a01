import DistributedCluster.Lib.Async
/-!
# Logs

A log records what the processes of a pool have done, beside the state. No
program sees it, and every run has one.
-/

/-- `S`, with the log that `log` makes of each action. -/
def Sem.logging {I : Interface} {σ Λ : Type} (S : Sem I σ) (log : I.Act → Λ → Λ) : Sem I (σ × Λ) :=
  fun e s x s' => S e s.1 x s'.1 ∧ s'.2 = log e s.2

/-- Answers for `S`, with the log that `log` makes of each action. -/
def Async.logged {I : Interface} {σ Λ : Type} (int : (e : I.Act) → σ → I.Ans e × σ) (log : I.Act → Λ → Λ) (e : I.Act)
    (s : σ × Λ) : I.Ans e × (σ × Λ) :=
  ((int e s.1).1, (int e s.1).2, log e s.2)

theorem Async.logged_sem {I : Interface} {σ Λ : Type} {S : Sem I σ} {int : (e : I.Act) → σ → I.Ans e × σ}
    (h : ∀ e s, S e s (int e s).1 (int e s).2) (log : I.Act → Λ → Λ) (e : I.Act) (s : σ × Λ) :
    (S.logging log) e s (logged int log e s).1 (logged int log e s).2 := ⟨h e s.1, rfl⟩

/-- Nobody sees the log. -/
theorem Async.exec_logged {I : Interface} {σ Λ α : Type} (int : (e : I.Act) → σ → I.Ans e × σ) (log : I.Act → Λ → Λ)
    (p : Async I α) (s : σ × Λ) :
    (exec (logged int log) p s).1 = (exec int p s.1).1 ∧ (exec (logged int log) p s).2.1 = (exec int p s.1).2 := by
  induction p generalizing s with
  | done a => exact ⟨rfl, rfl⟩
  | call e k ih => exact ih _ _

namespace Async.Pool

variable {I : Interface} {σ Λ α ι : Type} {S : ι → Sem I σ} {spawn : σ → Pool ι I α → ι → Async I α → Prop}
  {env : σ → Pool ι I α → σ → Prop} {log : ι → I.Act → Λ → Λ}

/-- Runs of a pool with a log. -/
abbrev LoggedSteps (S : ι → Sem I σ) (log : ι → I.Act → Λ → Λ) (spawn : σ → Pool ι I α → ι → Async I α → Prop)
    (env : σ → Pool ι I α → σ → Prop) : (σ × Λ) × Pool ι I α → (σ × Λ) × Pool ι I α → Prop :=
  Steps (fun i => (S i).logging (log i)) (fun s => spawn s.1) fun s l s' => env s.1 l s'.1 ∧ s'.2 = s.2

/-! ## Schedules -/

/-- Play a schedule: each entry names a process and how many actions it takes
next, with the answers `int` chooses. -/
def play (int : ι → (e : I.Act) → σ → I.Ans e × σ) : List (Nat × Nat) → σ × Pool ι I α → σ × Pool ι I α
  | [], c => c
  | (i, n) :: turns, (s, l) =>
    match l[i]? with
    | none => play int turns (s, l)
    | some (j, p) => play int turns ((advance (int j) n p s).2, l.set i (j, (advance (int j) n p s).1))

theorem play_cons (int : ι → (e : I.Act) → σ → I.Ans e × σ) (turn : Nat × Nat) (turns : List (Nat × Nat)) (c : σ × Pool ι I α) :
    play int (turn :: turns) c = play int turns (play int [turn] c) := by
  obtain ⟨i, n⟩ := turn
  obtain ⟨s, l⟩ := c
  cases hp : l[i]? <;> simp only [play, hp]

/-- One turn, if the process whose turn it is may take its actions. -/
theorem steps_turn {int : ι → (e : I.Act) → σ → I.Ans e × σ} {i n : Nat} {s : σ} {l : Pool ι I α}
    (h : ∀ jp ∈ l[i]?, ∀ l₁ l₂, Steps S spawn env (s, l₁ ++ jp :: l₂)
      ((advance (int jp.1) n jp.2 s).2, l₁ ++ (jp.1, (advance (int jp.1) n jp.2 s).1) :: l₂)) :
    Steps S spawn env (s, l) (play int [(i, n)] (s, l)) := by
  cases hp : l[i]? with
  | none =>
    simp only [play, hp]
    exact .refl
  | some jp =>
    obtain ⟨hi, hget⟩ := List.getElem?_eq_some_iff.1 hp
    have hl : l = l.take i ++ jp :: l.drop (i + 1) := by
      rw [← hget, List.getElem_cons_drop, List.take_append_drop]
    have hturn := h jp hp (l.take i) (l.drop (i + 1))
    rw [← hl] at hturn
    simp only [play, hp]
    rw [List.set_eq_take_append_cons_drop, if_pos hi]
    exact hturn

theorem steps_play {int : ι → (e : I.Act) → σ → I.Ans e × σ} (h : ∀ i e s, S i e s (int i e s).1 (int i e s).2)
    (turns : List (Nat × Nat)) (c : σ × Pool ι I α) : Steps S spawn env c (play int turns c) := by
  induction turns generalizing c with
  | nil => exact .refl
  | cons turn turns ih =>
    rw [play_cons]
    exact .trans (steps_turn fun jp _ => steps_advance (h jp.1) turn.2 jp.2 c.1) (ih _)

/-- The answers that are chosen on the way are as `φ` says. -/
def PlayMeets (int : ι → (e : I.Act) → σ → I.Ans e × σ) (φ : ι → (e : I.Act) → σ → I.Ans e → Prop) :
    List (Nat × Nat) → σ × Pool ι I α → Prop
  | [], _ => True
  | turn :: turns, c =>
    (∀ jp ∈ c.2[turn.1]?, MeetsFor (int jp.1) (φ jp.1) turn.2 jp.2 c.1) ∧ PlayMeets int φ turns (play int [turn] c)

instance PlayMeets.decidable {int : ι → (e : I.Act) → σ → I.Ans e × σ} {φ : ι → (e : I.Act) → σ → I.Ans e → Prop}
    [∀ j e s x, Decidable (φ j e s x)] : (turns : List (Nat × Nat)) → (c : σ × Pool ι I α) → Decidable (PlayMeets int φ turns c)
  | [], _ => .isTrue trivial
  | turn :: turns, c =>
    have : Decidable (PlayMeets int φ turns (play int [turn] c)) := PlayMeets.decidable turns _
    inferInstanceAs (Decidable (_ ∧ PlayMeets int φ turns (play int [turn] c)))

/-- A schedule may be played if all answers on the way are allowed. -/
theorem steps_play_meets {S₀ : ι → Sem I σ} {φ : ι → (e : I.Act) → σ → I.Ans e → Prop} (hS : ∀ i, S i = (S₀ i).restrict (φ i))
    {int : ι → (e : I.Act) → σ → I.Ans e × σ} (h : ∀ i e s, S₀ i e s (int i e s).1 (int i e s).2) {turns : List (Nat × Nat)}
    {c : σ × Pool ι I α} (hmeets : PlayMeets int φ turns c) : Steps S spawn env c (play int turns c) := by
  induction turns generalizing c with
  | nil => exact .refl
  | cons turn turns ih =>
    rw [play_cons]
    exact .trans (steps_turn fun jp hjp => steps_advance_meets (hS jp.1) (h jp.1) (hmeets.1 jp hjp)) (ih hmeets.2)

/-- The processes stay what they are for. -/
theorem jobs_play (int : ι → (e : I.Act) → σ → I.Ans e × σ) (turns : List (Nat × Nat)) (c : σ × Pool ι I α) :
    (play int turns c).2.map Prod.fst = c.2.map Prod.fst := by
  induction turns generalizing c with
  | nil => rfl
  | cons turn turns ih =>
    obtain ⟨i, n⟩ := turn
    obtain ⟨s, l⟩ := c
    cases hp : l[i]? with
    | none =>
      simp only [play, hp]
      exact ih (s, l)
    | some jp =>
      obtain ⟨j, p⟩ := jp
      simp only [play, hp]
      rw [ih, List.map_set]
      refine List.ext_getElem? fun k => ?_
      by_cases hk : i = k
      · subst hk
        obtain ⟨hi, hget⟩ := List.getElem?_eq_some_iff.1 hp
        simp [hi, hget]
      · simp [hk]

/-- What all processes have come to. -/
theorem done_of_outcomes {l : Pool ι I α} {jobs : List ι} {a : α} (hjobs : l.map Prod.fst = jobs)
    (hall : ∀ ip ∈ l, ip.2.outcome = some a) : ∀ i ∈ jobs, (i, .done a) ∈ l := by
  subst hjobs
  intro i hi
  obtain ⟨⟨j, p⟩, hmem, rfl⟩ := List.mem_map.1 hi
  exact done_of_outcome (hall _ hmem) ▸ hmem

end Async.Pool
