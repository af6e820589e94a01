import Mathlib.Data.List.Infix
/-!
# Occurrences of a pattern

Where a pattern stands in a text, and where it stands first. Patterns that cannot
overlap stand apart.
-/

namespace Occurrence

variable {α : Type} {pattern a b text u v : List α} {i j : Nat}

/-- The pattern stands in the text from position `i` on. -/
def At (pattern text : List α) (i : Nat) : Prop := ∃ pre post, text = pre ++ pattern ++ post ∧ pre.length = i

/-- It stands there, and not before. -/
structure First (pattern text : List α) (i : Nat) : Prop where
  here : At pattern text i
  least : ∀ j, At pattern text j → i ≤ j

/-- Wherever `b` starts inside `a`, the two differ where both are. -/
def Apart (a b : List α) : Prop := ∀ k < a.length, k ≠ 0 → ¬ a.drop k <+: b ∧ ¬ b <+: a.drop k

instance [DecidableEq α] (a b : List α) : Decidable (Apart a b) :=
  inferInstanceAs (Decidable (∀ k < a.length, k ≠ 0 → ¬ a.drop k <+: b ∧ ¬ b <+: a.drop k))

theorem at_append (pre pattern post : List α) : At pattern (pre ++ pattern ++ post) pre.length := ⟨pre, post, rfl, rfl⟩

theorem At.drop_eq (h : At pattern text i) : ∃ post, text.drop i = pattern ++ post := by
  obtain ⟨pre, post, rfl, rfl⟩ := h
  exact ⟨post, by rw [List.append_assoc, List.drop_left]⟩

theorem At.length_le (h : At pattern text i) : i + pattern.length ≤ text.length := by
  obtain ⟨pre, post, rfl, rfl⟩ := h
  simp

theorem not_at_nil (h : pattern ≠ []) (i : Nat) : ¬ At pattern [] i := by
  intro hat
  have hlength := hat.length_le
  have hpos := List.length_pos_iff.2 h
  simp only [List.length_nil] at hlength
  omega

theorem at_zero_iff : At pattern text 0 ↔ pattern <+: text := by
  constructor
  · rintro ⟨pre, post, rfl, hpre⟩
    obtain rfl := List.eq_nil_of_length_eq_zero hpre
    exact ⟨post, rfl⟩
  · rintro ⟨post, rfl⟩
    exact ⟨[], post, rfl, rfl⟩

theorem at_succ_iff {c : α} : At pattern (c :: text) (i + 1) ↔ At pattern text i := by
  constructor
  · rintro ⟨pre, post, htext, hpre⟩
    cases pre with
    | nil => cases hpre
    | cons d pre =>
      simp only [List.cons_append, List.cons.injEq] at htext
      exact ⟨pre, post, htext.2, Nat.succ.inj hpre⟩
  · rintro ⟨pre, post, rfl, rfl⟩
    exact ⟨c :: pre, post, rfl, rfl⟩

theorem At.append_right (h : At pattern u i) (v : List α) : At pattern (u ++ v) i := by
  obtain ⟨pre, post, rfl, rfl⟩ := h
  exact ⟨pre, post ++ v, by simp, rfl⟩

/-- What ends within the first part stands in it. -/
theorem At.of_append (h : At pattern (u ++ v) i) (hi : i + pattern.length ≤ u.length) : At pattern u i := by
  obtain ⟨pre, post, htext, rfl⟩ := h
  have hprefix : pre ++ pattern <+: u :=
    List.prefix_of_prefix_length_le ⟨post, htext.symm⟩ (List.prefix_append u v) (by simpa using hi)
  obtain ⟨rest, rfl⟩ := hprefix
  exact ⟨pre, rest, rfl, rfl⟩

theorem at_iff : At pattern text i ↔ i ≤ text.length ∧ pattern <+: text.drop i := by
  constructor
  · intro h
    obtain ⟨post, hpost⟩ := h.drop_eq
    exact ⟨(Nat.le_add_right _ _).trans h.length_le, post, hpost.symm⟩
  · rintro ⟨hi, post, hpost⟩
    exact ⟨text.take i, post, by rw [List.append_assoc, hpost, List.take_append_drop], List.length_take_of_le hi⟩

instance [DecidableEq α] (pattern text : List α) (i : Nat) : Decidable (At pattern text i) := decidable_of_iff _ at_iff.symm

theorem exists_at_iff : (∃ i, At pattern text i) ↔ pattern <:+: text := by
  constructor
  · rintro ⟨i, pre, post, rfl, -⟩
    exact ⟨pre, post, rfl⟩
  · rintro ⟨pre, post, rfl⟩
    exact ⟨_, at_append pre pattern post⟩

theorem First.unique (h : First pattern text i) (h' : First pattern text j) : i = j :=
  Nat.le_antisymm (h.least j h'.here) (h'.least i h.here)

theorem First.append_right (h : First pattern u i) (v : List α) : First pattern (u ++ v) i := by
  refine ⟨h.here.append_right v, fun j hj => ?_⟩
  by_contra hlt
  have hend := h.here.length_le
  exact hlt (h.least j (hj.of_append (by omega)))

theorem First.of_append (h : First pattern (u ++ v) i) (hi : i + pattern.length ≤ u.length) : First pattern u i :=
  ⟨h.here.of_append hi, fun j hj => h.least j (hj.append_right v)⟩

/-- Of patterns that stand apart, one ends before the other starts. -/
theorem Apart.le (h : Apart a b) (ha : At a text i) (hb : At b text j) (hij : i < j) : i + a.length ≤ j := by
  by_contra hlt
  obtain ⟨posta, hposta⟩ := ha.drop_eq
  obtain ⟨postb, hpostb⟩ := hb.drop_eq
  -- both patterns are read from position `j` on
  have hdrop : a.drop (j - i) ++ posta = b ++ postb := by
    rw [← hpostb, show j = i + (j - i) by omega, ← List.drop_drop, hposta, List.drop_append_of_le_length (by omega)]
    simp
  have hapart := h (j - i) (by omega) (by omega)
  rcases List.prefix_or_prefix_of_prefix (⟨posta, hdrop⟩ : a.drop (j - i) <+: b ++ postb) ⟨postb, rfl⟩ with hle | hle
  · exact hapart.1 hle
  · exact hapart.2 hle

end Occurrence
