import Mathlib.Data.List.Dedup
import Mathlib.Data.List.DropRight
/-!
# Tokenizer

`search/tokenizer.rs`.
-/

/-- What the code asks about characters: `str::to_lowercase`, `\w` of a regular
expression, `char::is_whitespace` and `char::is_alphanumeric`. -/
structure Unicode where
  to_lowercase : String → String
  is_word : Char → Bool
  is_whitespace : Char → Bool
  is_alphanumeric : Char → Bool

namespace Unicode

/-- For texts in ASCII. -/
def ascii : Unicode where
  to_lowercase text := String.ofList (text.toList.map Char.toLower)
  is_word c := c.isAlphanum || c == '_'
  is_whitespace c := c.isWhitespace || c == '\x0b' || c == '\x0c'
  is_alphanumeric := Char.isAlphanum

end Unicode

/-- `[a-zA-Z]` -/
def is_letter (c : Char) : Bool := c.isAlpha

/-- The matches of `\b[a-zA-Z]+\b`: the runs of word characters that consist of
letters. -/
def word_matches (unicode : Unicode) (text : String) : List (List Char) :=
  (text.toList.splitOnP fun c => !unicode.is_word c).filter fun word => word ≠ [] ∧ word.all is_letter

/-- The set of tokens, listed without repetition. -/
def tokenize_text (unicode : Unicode) (text : String) : List String :=
  (((word_matches unicode (unicode.to_lowercase text)).filter fun word => 2 < word.length).map String.ofList).dedup

theorem tokenize_text_nodup (unicode : Unicode) (text : String) : (tokenize_text unicode text).Nodup :=
  List.nodup_dedup _

example : tokenize_text .ascii "Go on: to_do, the Rust-book, the end2" = ["rust", "book", "the"] := by decide

def split_whitespace (unicode : Unicode) (text : String) : List (List Char) :=
  (text.toList.splitOnP unicode.is_whitespace).filter fun word => word ≠ []

def trim_matches (p : Char → Bool) (word : List Char) : List Char := (word.dropWhile p).rdropWhile p

/-! ## Trimming -/

section Trim

variable {p : Char → Bool} {u v word : List Char} {c : Char}

theorem dropWhile_append_all (h : ∀ c ∈ u, p c) : (u ++ v).dropWhile p = v.dropWhile p := by
  rw [List.dropWhile_append, List.dropWhile_eq_nil_iff.2 h]
  rfl

theorem rdropWhile_append_all (h : ∀ c ∈ v, p c) : (u ++ v).rdropWhile p = u.rdropWhile p := by
  rw [List.rdropWhile, List.reverse_append, dropWhile_append_all fun c hc => h c (List.mem_reverse.1 hc), ← List.rdropWhile]

theorem trim_matches_append_left (h : ∀ c ∈ u, p c) : trim_matches p (u ++ v) = trim_matches p v := by
  rw [trim_matches, dropWhile_append_all h, ← trim_matches]

/-- What begins and ends with other characters is not trimmed. -/
theorem trim_matches_eq_self (hhead : ∀ c, word.head? = some c → p c = false)
    (hlast : ∀ c, word.getLast? = some c → p c = false) : trim_matches p word = word := by
  have hdrop : word.dropWhile p = word := by
    cases word with
    | nil => rfl
    | cons c word => rw [List.dropWhile_cons_of_neg (by simp [hhead c rfl])]
  rw [trim_matches, hdrop, List.rdropWhile_eq_self_iff]
  intro hne
  simp [hlast _ (List.getLast?_eq_some_getLast hne)]

theorem trim_matches_append_right (h : ∀ c ∈ v, p c) : trim_matches p (u ++ v) = trim_matches p u := by
  unfold trim_matches
  rw [List.dropWhile_append]
  split
  · rename_i hu
    rw [List.isEmpty_iff.1 hu, List.dropWhile_eq_nil_iff.2 h]
  · exact rdropWhile_append_all h

theorem trim_matches_parts (p : Char → Bool) (word : List Char) :
    word = word.takeWhile p ++ trim_matches p word ++ (word.dropWhile p).rtakeWhile p := by
  rw [trim_matches, List.append_assoc, List.rdropWhile_append_rtakeWhile, List.takeWhile_append_dropWhile]

/-- Only such characters are taken off the two ends. -/
theorem exists_trim (p : Char → Bool) (word : List Char) :
    ∃ pre post, word = pre ++ trim_matches p word ++ post ∧ (∀ c ∈ pre, p c) ∧ ∀ c ∈ post, p c :=
  ⟨word.takeWhile p, (word.dropWhile p).rtakeWhile p, trim_matches_parts p word, fun _ hc => List.mem_takeWhile_imp hc,
    fun _ hc => List.mem_rtakeWhile_imp hc⟩

theorem trim_matches_head (h : (trim_matches p word).head? = some c) : p c = false := by
  obtain ⟨rest, hrest⟩ := List.rdropWhile_prefix p (word.dropWhile p)
  have hhead : (word.dropWhile p).head? = some c := by
    rw [← hrest, List.head?_append]
    rw [trim_matches] at h
    simp [h]
  have hnot := List.head?_dropWhile_not p word
  rw [hhead] at hnot
  simpa using hnot

theorem trim_matches_last (h : (trim_matches p word).getLast? = some c) : p c = false := by
  have hne : (word.dropWhile p).rdropWhile p ≠ [] := fun hnil => by simp [trim_matches, hnil] at h
  have hlast := List.rdropWhile_last_not p (word.dropWhile p) hne
  rw [trim_matches, List.getLast?_eq_some_getLast hne] at h
  simpa [Option.some.inj h] using hlast

theorem trim_matches_eq_nil_iff : trim_matches p word = [] ↔ ∀ c ∈ word, p c := by
  constructor
  · intro h
    obtain ⟨pre, post, hword, hpre, hpost⟩ := exists_trim p word
    rw [h, List.append_nil] at hword
    rw [hword]
    exact fun c hc => (List.mem_append.1 hc).elim (hpre c) (hpost c)
  · intro h
    rw [trim_matches, List.dropWhile_eq_nil_iff.2 h]
    rfl

/-- What comes before a text makes no difference exactly if it is trimmed off. -/
theorem trim_matches_append_iff : trim_matches p (u ++ v) = trim_matches p v ↔ ∀ c ∈ u, p c := by
  refine ⟨fun h => ?_, trim_matches_append_left⟩
  by_contra hcon
  -- the text is kept from the first other character of `u` on
  obtain ⟨c, u₂, hu₂⟩ : ∃ c u₂, u.dropWhile p = c :: u₂ :=
    List.exists_cons_of_ne_nil fun hnil => hcon (List.dropWhile_eq_nil_iff.1 hnil)
  have hc : p c = false := by
    have hnot := List.head?_dropWhile_not p u
    rw [hu₂] at hnot
    simpa using hnot
  have hu : trim_matches p (u ++ v) = trim_matches p (c :: u₂ ++ v) := by
    rw [← hu₂, ← List.takeWhile_append_dropWhile (p := p) (l := u), List.append_assoc,
      trim_matches_append_left fun d hd => List.mem_takeWhile_imp hd, List.takeWhile_append_dropWhile]
  obtain ⟨pre, post, hv, hpre, hpost⟩ := exists_trim p v
  by_cases hnil : trim_matches p v = []
  · rw [hu, hnil, trim_matches_eq_nil_iff] at h
    have hall := h c List.mem_cons_self
    rw [hc] at hall
    cases hall
  · have hkept : trim_matches p (c :: u₂ ++ v) = c :: u₂ ++ pre ++ trim_matches p v := by
      conv_lhs => rw [hv, ← List.append_assoc, ← List.append_assoc]
      rw [trim_matches_append_right hpost]
      refine trim_matches_eq_self (fun d hd => ?_) fun d hd => ?_
      · cases hd
        exact hc
      · rw [List.getLast?_append_of_ne_nil _ hnil] at hd
        exact trim_matches_last hd
    rw [hu, hkept] at h
    have hlength := congrArg List.length h
    simp at hlength
    omega

/-- Between such characters there is only one place for a word without them. -/
theorem place_unique {pre post before after : List Char} (hword : ∀ c ∈ word, p c = false) (hne : word ≠ [])
    (hpre : ∀ c ∈ pre, p c) (hpost : ∀ c ∈ post, p c) (h : before ++ word ++ after = pre ++ word ++ post) :
    before = pre ∧ after = post := by
  rw [List.append_assoc, List.append_assoc, List.append_eq_append_iff] at h
  rcases h with ⟨a, rfl, ha⟩ | ⟨a, rfl, ha⟩
  · cases a with
    | nil => exact ⟨(List.append_nil before).symm, List.append_cancel_left ha⟩
    | cons c a =>
      -- the word would begin with a character of `pre`
      obtain ⟨d, rest, rfl⟩ := List.exists_cons_of_ne_nil hne
      have hc := hpre c (by simp)
      rw [← (List.cons.inj ha).1, hword d List.mem_cons_self] at hc
      cases hc
  · rcases List.eq_nil_or_concat a with rfl | ⟨a, c, rfl⟩
    · exact ⟨List.append_nil pre, (List.append_cancel_left ha).symm⟩
    · -- the word would end with a character of `post`
      rw [← List.append_assoc, List.append_eq_append_iff] at ha
      rcases ha with ⟨b, hb, rfl⟩ | ⟨b, hb, -⟩
      · have hlength := congrArg List.length hb
        simp at hlength
        have hbne : b ≠ [] := by
          rintro rfl
          simp at hlength
          omega
        have hlast := congrArg List.getLast? hb
        rw [List.getLast?_append_of_ne_nil _ hne, List.getLast?_append_of_ne_nil _ hbne, List.getLast?_eq_some_getLast hne,
          List.getLast?_eq_some_getLast hbne, Option.some.injEq] at hlast
        have hc := hpost (b.getLast hbne) (List.mem_append_left _ (List.getLast_mem hbne))
        rw [← hlast, hword _ (List.getLast_mem hne)] at hc
        cases hc
      · have hlength := congrArg List.length hb
        simp at hlength
        omega

end Trim

/-- The words of a query, in their order. A word counts as short by its bytes, and
is trimmed afterwards. -/
def tokenize_query (unicode : Unicode) (query : String) : List String :=
  ((((split_whitespace unicode (unicode.to_lowercase query)).filter fun word => 2 < (String.ofList word).utf8ByteSize).map
    (trim_matches fun c => !unicode.is_alphanumeric c)).filter fun word => word ≠ []).map String.ofList

example : tokenize_query .ascii "The (Rust) book, of -- (x)!" = ["the", "rust", "book", "x"] := by decide
