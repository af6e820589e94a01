import Mathlib.Combinatorics.SimpleGraph.Walk.Operations
/-!
# What spreads by squaring

Relations that grow, each of which contains the one before it composed with itself,
reach twice as far every time.
-/

namespace Spreading

variable {V : Type} {G : SimpleGraph V} {K : ℕ → V → V → Prop}

theorem of_walk (hadj : ∀ a b, G.Adj a b → K 0 a b) (hgrow : ∀ i a b, K i a b → K (i + 1) a b)
    (hcomp : ∀ i a b c, K i a b → K i b c → K (i + 1) a c) {i : ℕ} {a b : V} (w : G.Walk a b) (hpos : 0 < w.length)
    (hle : w.length ≤ 2 ^ i) : K i a b := by
  induction i generalizing a b with
  | zero =>
    have hone : w.length = 1 := by
      rw [Nat.pow_zero] at hle
      omega
    exact hadj a b (SimpleGraph.Walk.adj_of_length_eq_one hone)
  | succ i ih =>
    by_cases hhalf : w.length ≤ 2 ^ i
    · exact hgrow i a b (ih w hpos hhalf)
    · -- the first half is full, the second one the rest
      have htwo : 2 ^ (i + 1) = 2 * 2 ^ i := Nat.pow_succ'
      have hone : 0 < 2 ^ i := Nat.two_pow_pos i
      refine hcomp i a (w.getVert (2 ^ i)) b (ih (w.take (2 ^ i)) ?_ ?_) (ih (w.drop (2 ^ i)) ?_ ?_)
      · rw [SimpleGraph.Walk.take_length]
        omega
      · rw [SimpleGraph.Walk.take_length]
        omega
      · rw [SimpleGraph.Walk.drop_length]
        omega
      · rw [SimpleGraph.Walk.drop_length]
        omega

end Spreading
