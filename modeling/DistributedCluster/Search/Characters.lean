import DistributedCluster.Lib.CaseMapping
import DistributedCluster.Search.Tokenizer
/-!
# Character tables

The tables behind `Unicode`, with what both tokenizers rely on. A text is
lower-cased by them as `str::to_lowercase` does it.
-/

/-- Tables of one version of Unicode. -/
structure CharTable extends CaseTable where
  is_word : Char → Bool
  is_whitespace : Char → Bool
  is_alphanumeric : Char → Bool
  ascii_lower {c : Char} (h : c.toNat < 128) : to_lowercase c = [c.toLower]
  ascii_word {c : Char} (h : c.toNat < 128) : is_word c = Unicode.ascii.is_word c
  ascii_whitespace {c : Char} (h : c.toNat < 128) : is_whitespace c = Unicode.ascii.is_whitespace c
  ascii_alphanumeric {c : Char} (h : c.toNat < 128) : is_alphanumeric c = Unicode.ascii.is_alphanumeric c
  whitespace_apart {c : Char} (h : is_whitespace c) : is_word c = false ∧ is_alphanumeric c = false
  /-- Only letters have a lower case. -/
  lower_other {c : Char} (h : is_alphanumeric c = false) : to_lowercase c = [c]
  /-- It begins with a letter, and marks may follow. -/
  lower_head {c : Char} (h : is_alphanumeric c) : ∃ d rest, to_lowercase c = d :: rest ∧ is_alphanumeric d
  lower_word {c d : Char} (h : to_lowercase c ≠ [c]) (hd : d ∈ to_lowercase c) : is_word d
  alphanumeric_final_sigma : is_alphanumeric 'ς'

namespace CharTable

variable (t : CharTable)

def unicode : Unicode where
  to_lowercase text := String.ofList (t.lower text.toList)
  is_word := t.is_word
  is_whitespace := t.is_whitespace
  is_alphanumeric := t.is_alphanumeric

/-- What is taken off the edges of a word. -/
def is_edge (c : Char) : Bool := !t.is_alphanumeric c

variable {t} {c d : Char}

theorem ascii_of_alphanum (h : c.isAlphanum) : c.toNat < 128 := by
  have hle : ∀ d : Char, d.val.toNat < 128 → c.val ≤ d.val → c.toNat < 128 := by
    intro d hd hcd
    exact Nat.lt_of_le_of_lt (UInt32.le_iff_toNat_le.1 hcd) hd
  rcases Bool.or_eq_true_iff.1 h with hletter | hdigit
  · rcases Bool.or_eq_true_iff.1 hletter with hupper | hlower
    · exact hle 'Z' (by decide) (of_decide_eq_true hupper).2
    · exact hle 'z' (by decide) (of_decide_eq_true (Bool.and_eq_true_iff.1 hlower).2)
  · exact hle '9' (by decide) (of_decide_eq_true (Bool.and_eq_true_iff.1 hdigit).2)

theorem ascii_of_letter (h : is_letter c) : c.toNat < 128 := ascii_of_alphanum (Bool.or_eq_true_iff.2 (.inl h))

theorem word_of_letter (h : is_letter c) : t.is_word c := by
  rw [t.ascii_word (ascii_of_letter h)]
  simp only [is_letter] at h
  simp [Unicode.ascii, Char.isAlphanum, h]

theorem alphanumeric_of_letter (h : is_letter c) : t.is_alphanumeric c := by
  rw [t.ascii_alphanumeric (ascii_of_letter h)]
  simp only [is_letter] at h
  simp [Unicode.ascii, Char.isAlphanum, h]

theorem settled_of_whitespace (h : t.is_whitespace c) : t.Settled c := t.lower_other (t.whitespace_apart h).2

theorem settled_of_edge (h : t.is_edge c) : t.Settled c := t.lower_other (by simpa [is_edge] using h)

/-- Lower-casing makes no white space. -/
theorem whitespace_of_lower (hd : d ∈ t.to_lowercase c) (h : t.is_whitespace d) : t.is_whitespace c := by
  by_cases hsame : t.to_lowercase c = [c]
  · rw [hsame, List.mem_singleton] at hd
    exact hd ▸ h
  · have hword := t.lower_word hsame hd
    rw [(t.whitespace_apart h).1] at hword
    cases hword

theorem Lowers.free_of_whitespace {text low : List Char} (h : t.Lowers text low)
    (htext : ∀ c ∈ text, t.is_whitespace c = false) : ∀ c ∈ low, t.is_whitespace c = false := by
  intro d hd
  rw [← Bool.not_eq_true]
  intro hspace
  obtain ⟨c, hc, hd | ⟨-, rfl⟩⟩ := h.mem hd
  · have hspace' := whitespace_of_lower hd hspace
    rw [htext c hc] at hspace'
    cases hspace'
  · have hletter := t.alphanumeric_final_sigma
    rw [(t.whitespace_apart hspace).2] at hletter
    cases hletter

/-! ## A table -/

theorem forall_ascii {P : Char → Prop} (h : ∀ n < 128, P (Char.ofNat n)) (hc : c.toNat < 128) : P c := by
  rw [← Char.ofNat_toNat c]
  exact h _ hc

theorem not_ascii (hc : ¬ c.toNat < 128) : c.toLower = c ∧ c.isAlphanum = false := by
  constructor
  · apply dif_neg
    rintro ⟨-, hle⟩
    exact hc (Nat.lt_of_le_of_lt (UInt32.le_iff_toNat_le.1 hle) (by decide))
  · rw [Bool.eq_false_iff]
    exact fun h => hc (ascii_of_alphanum h)

def is_sigma (c : Char) : Bool := c == 'Σ' || c == 'σ' || c == 'ς'

def basic_lower (c : Char) : List Char := if c = 'Σ' then ['σ'] else [c.toLower]

def basic_alphanumeric (c : Char) : Bool := c.isAlphanum || is_sigma c

theorem basic_lower_ascii (hc : c.toNat < 128) : basic_lower c = [c.toLower] :=
  forall_ascii (P := fun c => basic_lower c = [c.toLower]) (by decide) hc

theorem basic_lower_of_not_ascii (hc : ¬ c.toNat < 128) : basic_lower c = if c = 'Σ' then ['σ'] else [c] := by
  rw [basic_lower, (not_ascii hc).1]

/-- The letters of ASCII, and the sigma. -/
def basic : CharTable where
  to_lowercase := basic_lower
  is_cased c := c.isAlpha || is_sigma c
  is_case_ignorable c := c == '\'' || c == '.' || c == ':' || c == '^'
  is_word c := basic_alphanumeric c || c == '_'
  is_whitespace := Unicode.ascii.is_whitespace
  is_alphanumeric := basic_alphanumeric
  lower_ne_nil c := by
    unfold basic_lower
    split <;> simp
  lower_lower := by
    intro c d h
    by_cases hc : c.toNat < 128
    · have hall := forall_ascii (P := fun c => (basic_lower c).all fun d => basic_lower d = [d]) (by decide) hc
      simpa using List.all_eq_true.1 hall d h
    · rw [basic_lower_of_not_ascii hc] at h
      split at h
      · rw [List.mem_singleton.1 h]
        decide
      · rename_i hne
        rw [List.mem_singleton.1 h, basic_lower_of_not_ascii hc, if_neg hne]
  lower_sigma := rfl
  lower_final_sigma := by decide
  ascii_lower := basic_lower_ascii
  ascii_word hc := forall_ascii (P := fun c => (basic_alphanumeric c || c == '_') = Unicode.ascii.is_word c) (by decide) hc
  ascii_whitespace _ := rfl
  ascii_alphanumeric hc := forall_ascii (P := fun c => basic_alphanumeric c = Unicode.ascii.is_alphanumeric c) (by decide) hc
  whitespace_apart := by
    intro c h
    have hmem : c ∈ [' ', '\t', '\r', '\n', '\x0b', '\x0c'] := by
      simp only [Unicode.ascii, Char.isWhitespace, Bool.or_eq_true, beq_iff_eq, decide_eq_true_eq] at h
      simp only [List.mem_cons, List.not_mem_nil, or_false]
      tauto
    revert h
    have hall : [' ', '\t', '\r', '\n', '\x0b', '\x0c'].all fun c =>
      (basic_alphanumeric c || c == '_') = false ∧ basic_alphanumeric c = false := by decide
    exact fun _ => of_decide_eq_true (List.all_eq_true.1 hall c hmem)
  lower_other := by
    intro c h
    by_cases hc : c.toNat < 128
    · exact forall_ascii (P := fun c => basic_alphanumeric c = false → basic_lower c = [c]) (by decide) hc h
    · rw [basic_lower_of_not_ascii hc, if_neg]
      rintro rfl
      exact absurd h (by decide)
  lower_head := by
    intro c h
    by_cases hc : c.toNat < 128
    · have hlower := forall_ascii (P := fun c => basic_alphanumeric c → basic_alphanumeric c.toLower) (by decide) hc h
      exact ⟨c.toLower, [], basic_lower_ascii hc, hlower⟩
    · rw [basic_lower_of_not_ascii hc]
      split
      · exact ⟨'σ', [], rfl, by decide⟩
      · exact ⟨c, [], rfl, h⟩
  lower_word := by
    intro c d h hd
    by_cases hc : c.toNat < 128
    · have hall := forall_ascii
        (P := fun c => basic_lower c ≠ [c] → (basic_lower c).all fun d => basic_alphanumeric d || d == '_') (by decide) hc
      exact List.all_eq_true.1 (hall h) d hd
    · rw [basic_lower_of_not_ascii hc] at h hd
      split at hd
      · rw [List.mem_singleton.1 hd]
        decide
      · rename_i hne
        rw [if_neg hne] at h
        exact absurd rfl h
  alphanumeric_final_sigma := by decide

end CharTable
