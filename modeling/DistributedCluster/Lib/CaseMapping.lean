import Mathlib.Data.List.Basic
/-!
# Lower case

Lower-casing of a text, character by character but for the sigma, which has two
lower-case forms. A lower-cased text is settled: lower-casing leaves it alone.
-/

/-- What Unicode says about single characters. -/
structure CaseTable where
  to_lowercase : Char → List Char
  is_cased : Char → Bool
  is_case_ignorable : Char → Bool
  lower_ne_nil (c : Char) : to_lowercase c ≠ []
  lower_lower {c d : Char} (h : d ∈ to_lowercase c) : to_lowercase d = [d]
  lower_sigma : to_lowercase 'Σ' = ['σ']
  lower_final_sigma : to_lowercase 'ς' = ['ς']

namespace CaseTable

variable (t : CaseTable)

def case_ignorable_then_cased (chars : List Char) : Bool :=
  (chars.dropWhile t.is_case_ignorable).head?.any t.is_cased

/-- The lower case of a `Σ`: `ς` at the end of a word. What comes before is listed
backwards. -/
def map_uppercase_sigma (before after : List Char) : Char :=
  if t.case_ignorable_then_cased before && !t.case_ignorable_then_cased after then 'ς' else 'σ'

def lower_char (before : List Char) (c : Char) (after : List Char) : List Char :=
  if c = 'Σ' then [t.map_uppercase_sigma before after] else t.to_lowercase c

def lower_from (before : List Char) : List Char → List Char
  | [] => []
  | c :: after => t.lower_char before c after ++ lower_from (c :: before) after

def lower (text : List Char) : List Char := t.lower_from [] text

/-- Each character has become one of its lower-case forms. -/
inductive Lowers : List Char → List Char → Prop
  | nil : Lowers [] []
  | cons {c : Char} {piece text low : List Char} (hpiece : piece = t.to_lowercase c ∨ c = 'Σ' ∧ piece = ['ς'])
    (hrest : Lowers text low) : Lowers (c :: text) (piece ++ low)

/-- Lower-casing leaves the character alone. -/
def Settled (c : Char) : Prop := t.to_lowercase c = [c]

variable {t} {u v text low : List Char} {c d : Char}

theorem lowers_lower_from (before text : List Char) : t.Lowers text (t.lower_from before text) := by
  induction text generalizing before with
  | nil => exact .nil
  | cons c after ih =>
    refine .cons ?_ (ih (c :: before))
    unfold lower_char
    split
    · rename_i hc
      subst hc
      unfold map_uppercase_sigma
      split
      · exact .inr ⟨rfl, rfl⟩
      · exact .inl t.lower_sigma.symm
    · exact .inl rfl

theorem lowers_lower (text : List Char) : t.Lowers text (t.lower text) := lowers_lower_from [] text

theorem Lowers.append_inv (h : t.Lowers (u ++ v) low) : ∃ a b, low = a ++ b ∧ t.Lowers u a ∧ t.Lowers v b := by
  induction u generalizing low with
  | nil => exact ⟨[], low, rfl, .nil, h⟩
  | cons c u ih =>
    cases h with
    | @cons _ piece _ rest hpiece hrest =>
      obtain ⟨a, b, rfl, ha, hb⟩ := ih hrest
      exact ⟨piece ++ a, b, by rw [List.append_assoc], .cons hpiece ha, hb⟩

theorem Lowers.length_le (h : t.Lowers text low) : text.length ≤ low.length := by
  induction h with
  | nil => exact Nat.le_refl 0
  | @cons c piece text low hpiece _ ih =>
    have hpos : piece ≠ [] := by
      rcases hpiece with rfl | ⟨-, rfl⟩
      · exact t.lower_ne_nil c
      · simp
    have hlength := List.length_pos_iff.2 hpos
    rw [List.length_cons, List.length_append]
    omega

/-- Every new character comes from one of the old. -/
theorem Lowers.mem (h : t.Lowers text low) (hd : d ∈ low) :
    ∃ c ∈ text, d ∈ t.to_lowercase c ∨ c = 'Σ' ∧ d = 'ς' := by
  induction h with
  | nil => cases hd
  | @cons c piece text low hpiece _ ih =>
    rcases List.mem_append.1 hd with hd | hd
    · refine ⟨c, List.mem_cons_self, ?_⟩
      rcases hpiece with rfl | ⟨rfl, rfl⟩
      · exact .inl hd
      · exact .inr ⟨rfl, List.mem_singleton.1 hd⟩
    · obtain ⟨c', hc', hd⟩ := ih hd
      exact ⟨c', List.mem_cons_of_mem c hc', hd⟩

/-- Only a sigma has a choice. -/
theorem Lowers.eq_flatMap (h : t.Lowers text low) (hsigma : 'Σ' ∉ text) : low = text.flatMap t.to_lowercase := by
  induction h with
  | nil => rfl
  | @cons c piece text low hpiece _ ih =>
    rw [List.mem_cons, not_or] at hsigma
    rw [List.flatMap_cons, ← ih hsigma.2]
    rcases hpiece with rfl | ⟨rfl, -⟩
    · rfl
    · exact absurd rfl hsigma.1

/-- What holds of the new characters holds of all pieces. -/
theorem Lowers.forall_pieces {P : Char → Prop} (h : t.Lowers text low) (hlow : ∀ d ∈ low, P d) (hsigma : ¬ P 'ς')
    (hc : c ∈ text) (hd : d ∈ t.to_lowercase c) : P d := by
  induction h with
  | nil => cases hc
  | @cons c' piece text low hpiece _ ih =>
    rcases List.mem_cons.1 hc with rfl | hc
    · rcases hpiece with rfl | ⟨-, rfl⟩
      · exact hlow d (List.mem_append_left _ hd)
      · exact absurd (hlow 'ς' (List.mem_append_left _ (List.mem_singleton_self _))) hsigma
    · exact ih (fun d hd => hlow d (List.mem_append_right _ hd)) hc

theorem Lowers.singleton_inv (h : t.Lowers [c] low) : low = t.to_lowercase c ∨ c = 'Σ' ∧ low = ['ς'] := by
  cases h with
  | cons hpiece hrest =>
    cases hrest
    rwa [List.append_nil]

theorem Settled.ne_sigma (h : t.Settled c) : c ≠ 'Σ' := by
  rintro rfl
  rw [Settled, t.lower_sigma] at h
  exact absurd h (by decide)

/-- A text of settled characters is its own lower case. -/
theorem Lowers.eq_self (h : t.Lowers text low) (hsettled : ∀ c ∈ text, t.Settled c) : low = text := by
  induction h with
  | nil => rfl
  | @cons c piece text low hpiece _ ih =>
    have hc := hsettled c List.mem_cons_self
    rw [ih fun d hd => hsettled d (List.mem_cons_of_mem c hd)]
    rcases hpiece with rfl | ⟨rfl, -⟩
    · rw [hc]
      rfl
    · exact absurd rfl hc.ne_sigma

/-- What has been lower-cased is settled. -/
theorem Lowers.settled (h : t.Lowers text low) (hd : d ∈ low) : t.Settled d := by
  obtain ⟨c, -, hd | ⟨-, rfl⟩⟩ := h.mem hd
  · exact t.lower_lower hd
  · exact t.lower_final_sigma

theorem lower_eq_self (h : ∀ c ∈ text, t.Settled c) : t.lower text = text := (lowers_lower text).eq_self h

end CaseTable
