import Mathlib.Data.List.Chain
import DistributedCluster.Lib.Async
/-!
# Runs with what was met on the way

What a process finds may have been left by another one, earlier in the same run.
Such a statement speaks of all configurations that the run met. Its steps are then
those of a system in which nothing else is ever met.
-/

namespace Async.Pool

variable {I : Interface} {σ ι α : Type} {S : ι → Sem I σ} {spawn : σ → Pool ι I α → ι → Async I α → Prop}
  {env : σ → Pool ι I α → σ → Prop} {c c' : σ × Pool ι I α}

/-- A run, step by step. -/
structure Run (S : ι → Sem I σ) (spawn : σ → Pool ι I α → ι → Async I α → Prop) (env : σ → Pool ι I α → σ → Prop)
    (c c' : σ × Pool ι I α) where
  later : List (σ × Pool ι I α)
  chain : List.IsChain (Step S spawn env) (c :: later)
  last : (c :: later).getLast (List.cons_ne_nil c later) = c'

/-- The configurations of the run, from the first to the last. -/
def Run.met (run : Run S spawn env c c') : List (σ × Pool ι I α) := c :: run.later

theorem exists_run (h : Steps S spawn env c c') : Nonempty (Run S spawn env c c') := by
  obtain ⟨later, hchain, hlast⟩ := List.exists_isChain_cons_of_relationReflTransGen h
  exact ⟨⟨later, hchain, hlast⟩⟩

/-- Actions are taken in states that the run met, and processes that start are met. -/
theorem Run.steps (run : Run S spawn env c c') :
    Steps (fun i e s x s' => S i e s x s' ∧ ∃ l, (s, l) ∈ run.met)
      (fun s l i p => spawn s l i p ∧ (s, (i, p) :: l) ∈ run.met) env c c' := by
  have hstep : ∀ a b, a ∈ run.met → b ∈ run.met → Step S spawn env a b →
      Step (fun i e s x s' => S i e s x s' ∧ ∃ l, (s, l) ∈ run.met)
        (fun s l i p => spawn s l i p ∧ (s, (i, p) :: l) ∈ run.met) env a b := by
    intro a b ha hb h
    cases h with
    | run i e k x hact => exact .run i e k x ⟨hact, _, ha⟩
    | retire i a => exact .retire i a
    | spawn i p hsp => exact .spawn i p ⟨hsp, hb⟩
    | env s' he => exact .env s' he
  have hchain := run.chain.imp_of_mem_imp fun {a b} ha hb h => hstep a b ha hb h
  exact List.relationReflTransGen_of_exists_isChain_cons run.later hchain run.last

end Async.Pool
