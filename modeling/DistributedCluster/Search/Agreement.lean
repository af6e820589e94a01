import DistributedCluster.Search.Words
/-!
# Words copied from a document

A word of a document is looked up trimmed at its edges, and the document is listed
under its runs of letters.
-/

namespace Search

open Words CaseTable

variable {t : CharTable} {word low : List Char}

/-- Lower-cased, the trimmed word consists of letters, and no underscore or mark is
next to it. -/
structure Plain (t : CharTable) (word : List Char) : Prop where
  letters : ∀ c ∈ trim_matches t.is_edge word, ∀ d ∈ t.to_lowercase c, is_letter d
  starts : ∀ c, (word.takeWhile t.is_edge).getLast? = some c → t.is_word c = false
  ends : ∀ c, ((word.dropWhile t.is_edge).rtakeWhile t.is_edge).head? = some c → t.is_word c = false

/-! ## The token of a word -/

/-- The edges stay as they are. -/
theorem lowers_parts (h : t.Lowers word low) :
    ∃ middle, low = word.takeWhile t.is_edge ++ middle ++ (word.dropWhile t.is_edge).rtakeWhile t.is_edge ∧
      t.Lowers (trim_matches t.is_edge word) middle := by
  rw [trim_matches_parts t.is_edge word] at h
  obtain ⟨left, post, rfl, hleft, hpost⟩ := h.append_inv
  obtain ⟨pre, middle, rfl, hpre, hmiddle⟩ := hleft.append_inv
  have hpre' := hpre.eq_self fun c hc => CharTable.settled_of_edge (List.mem_takeWhile_imp hc)
  have hpost' := hpost.eq_self fun c hc => CharTable.settled_of_edge (List.mem_rtakeWhile_imp hc)
  exact ⟨middle, by rw [hpre', hpost'], hmiddle⟩

theorem query_words_of_word (hne : word ≠ []) (hfree : ∀ c ∈ word, t.is_whitespace c = false) :
    query_words t (String.ofList word) = [t.lower word] := by
  have hlowers := t.lowers_lower word
  have hlow : t.lower word ≠ [] := by
    intro hnil
    have hlength := hlowers.length_le
    rw [hnil] at hlength
    exact hne (List.eq_nil_of_length_eq_zero (Nat.le_zero.1 hlength))
  have hsplit := List.splitOnP_eq_singleton (CharTable.Lowers.free_of_whitespace hlowers hfree)
  simp [query_words, split_whitespace, CharTable.unicode, hsplit, hlow]

/-- The lower case of the trimmed word begins with a letter. -/
theorem middle_eq_cons {text middle : List Char} (h : t.Lowers text middle) (hne : text ≠ [])
    (hhead : ∀ c, text.head? = some c → t.is_alphanumeric c) : ∃ d rest, middle = d :: rest ∧ t.is_alphanumeric d := by
  cases h with
  | nil => exact absurd rfl hne
  | @cons c piece text low hpiece _ =>
    rcases hpiece with rfl | ⟨-, rfl⟩
    · obtain ⟨d, rest, hpiece, hd⟩ := t.lower_head (hhead c rfl)
      exact ⟨d, rest ++ low, by rw [hpiece]; rfl, hd⟩
    · exact ⟨'ς', low, rfl, t.alphanumeric_final_sigma⟩

theorem alphanumeric_of_head {text : List Char} {c : Char} (h : (trim_matches t.is_edge text).head? = some c) :
    t.is_alphanumeric c := by
  simpa [CharTable.is_edge] using trim_matches_head h

theorem alphanumeric_of_last {text : List Char} {c : Char} (h : (trim_matches t.is_edge text).getLast? = some c) :
    t.is_alphanumeric c := by
  simpa [CharTable.is_edge] using trim_matches_last h

theorem length_le_utf8ByteSize (text : List Char) : text.length ≤ (String.ofList text).utf8ByteSize := by
  induction text with
  | nil => exact Nat.zero_le _
  | cons c text ih =>
    have hpos := Char.utf8Size_pos c
    rw [← List.singleton_append, String.ofList_append, String.utf8ByteSize_append, List.length_append, List.length_singleton]
    have hone : (String.ofList [c]).utf8ByteSize = c.utf8Size := by
      rw [← String.singleton_eq_ofList, String.utf8ByteSize_singleton]
    omega

/-- As a query the word has one token. -/
theorem mem_tokenize_query_word {token : String} (hfree : ∀ c ∈ word, t.is_whitespace c = false)
    (hlong : 3 ≤ (trim_matches t.is_edge word).length) :
    token ∈ tokenize_query t.unicode (String.ofList word) ↔ token = trimmed t (t.lower word) := by
  obtain ⟨middle, hlow, hmiddle⟩ := lowers_parts (t.lowers_lower word)
  have hword : word ≠ [] := by
    rintro rfl
    simp [trim_matches] at hlong
  have hne : trim_matches t.is_edge word ≠ [] := by
    intro hnil
    simp [hnil] at hlong
  simp only [mem_tokenize_query, query_words_of_word hword hfree, List.mem_singleton, exists_eq_left]
  constructor
  · rintro ⟨-, rfl, -⟩
    rfl
  · rintro rfl
    refine ⟨?_, rfl, ?_⟩
    · rw [is_long_iff]
      have hlength := (t.lowers_lower word).length_le
      have hbytes := length_le_utf8ByteSize (t.lower word)
      have hparts := congrArg List.length (trim_matches_parts t.is_edge word)
      simp only [List.length_append] at hparts
      omega
    · obtain ⟨d, rest, hcons, hd⟩ := middle_eq_cons hmiddle hne fun c => alphanumeric_of_head
      simp only [trimmed, ne_eq, String.ofList_eq_empty_iff, trim_matches_eq_nil_iff]
      intro hall
      have hedge := hall d (by rw [hlow, hcons]; simp)
      simp [CharTable.is_edge, hd] at hedge

/-- What a text is listed under: long runs of letters. -/
theorem mem_tokenize_text {unicode : Unicode} {text : String} {run : List Char} :
    String.ofList run ∈ tokenize_text unicode text ↔ 2 < run.length ∧ (∀ c ∈ run, is_letter c) ∧
      ∃ before after, Stands (fun c => !unicode.is_word c) (unicode.to_lowercase text).toList before run after := by
  simp only [tokenize_text, List.mem_dedup, List.mem_map, word_matches, List.mem_filter, mem_splitOnP_iff, String.ofList_inj,
    exists_eq_right, decide_eq_true_eq, List.all_eq_true]
  constructor
  · rintro ⟨⟨hstands, -, hall⟩, hlong⟩
    exact ⟨hlong, hall, hstands⟩
  · rintro ⟨hlong, hall, hstands⟩
    refine ⟨⟨hstands, ?_, hall⟩, hlong⟩
    rintro rfl
    cases hlong

/-! ## Plain words are found -/

theorem Plain.no_sigma (h : Plain t word) : 'Σ' ∉ trim_matches t.is_edge word := by
  intro hmem
  have hletter := h.letters 'Σ' hmem 'σ' (by rw [t.lower_sigma]; exact List.mem_singleton_self _)
  exact absurd hletter (by decide)

/-- White space and the ends of a text are no word characters. -/
theorem last_of_lowers {text : List Char} (h : t.Lowers text low)
    (hspace : ∀ c, text.getLast? = some c → t.is_whitespace c) {c : Char} (hc : low.getLast? = some c) : t.is_word c = false := by
  rcases List.eq_nil_or_concat text with rfl | ⟨text, s, rfl⟩
  · cases h
    cases hc
  · have hs := hspace s (by simp)
    rw [List.concat_eq_append] at h
    obtain ⟨a, b, rfl, -, hb⟩ := h.append_inv
    rw [hb.eq_self fun c hc => (List.mem_singleton.1 hc) ▸ CharTable.settled_of_whitespace hs] at hc
    rw [List.getLast?_concat, Option.some.injEq] at hc
    exact hc ▸ (t.whitespace_apart hs).1

theorem head_of_lowers {text : List Char} (h : t.Lowers text low)
    (hspace : ∀ c, text.head? = some c → t.is_whitespace c) {c : Char} (hc : low.head? = some c) : t.is_word c = false := by
  cases text with
  | nil =>
    cases h
    cases hc
  | cons s text =>
    have hs := hspace s rfl
    rw [← List.singleton_append] at h
    obtain ⟨a, b, rfl, ha, -⟩ := h.append_inv
    rw [ha.eq_self fun c hc => (List.mem_singleton.1 hc) ▸ CharTable.settled_of_whitespace hs] at hc
    cases hc
    exact (t.whitespace_apart hs).1

/-- Where the word stands in a document, its letters stand in the lower-cased one. -/
theorem Plain.stands {text before after : List Char} (h : Plain t word) (hstands : Stands t.is_whitespace text before word after)
    (hlow : t.Lowers text low) : ∃ before' after', Stands (fun c => !t.is_word c) low before'
      ((trim_matches t.is_edge word).flatMap t.to_lowercase) after' := by
  rw [hstands.list_eq] at hlow
  obtain ⟨left, afterLow, rfl, hleft, hafter⟩ := hlow.append_inv
  obtain ⟨beforeLow, wordLow, rfl, hbefore, hword⟩ := hleft.append_inv
  obtain ⟨middle, rfl, hmiddle⟩ := lowers_parts hword
  rw [hmiddle.eq_flatMap h.no_sigma]
  refine ⟨beforeLow ++ word.takeWhile t.is_edge, (word.dropWhile t.is_edge).rtakeWhile t.is_edge ++ afterLow, ?_, ?_, ?_, ?_⟩
  · simp only [List.append_assoc]
  · intro d hd
    obtain ⟨c, hc, hd⟩ := List.mem_flatMap.1 hd
    simp [CharTable.word_of_letter (h.letters c hc d hd)]
  · intro c hc
    rw [List.getLast?_append, Option.or_eq_some_iff] at hc
    rcases hc with hc | ⟨-, hc⟩
    · simp [h.starts c hc]
    · simp [last_of_lowers hbefore hstands.starts hc]
  · intro c hc
    rw [List.head?_append, Option.or_eq_some_iff] at hc
    rcases hc with hc | ⟨-, hc⟩
    · simp [h.ends c hc]
    · simp [head_of_lowers hafter hstands.ends hc]

/-- Letters are not trimmed. -/
theorem Plain.trimmed_lower (h : Plain t word) :
    trimmed t (t.lower word) = String.ofList ((trim_matches t.is_edge word).flatMap t.to_lowercase) := by
  obtain ⟨middle, hlow, hmiddle⟩ := lowers_parts (t.lowers_lower word)
  have hkept : ∀ c ∈ middle, t.is_edge c = false := by
    intro d hd
    rw [hmiddle.eq_flatMap h.no_sigma] at hd
    obtain ⟨c, hc, hd⟩ := List.mem_flatMap.1 hd
    simp [CharTable.is_edge, CharTable.alphanumeric_of_letter (h.letters c hc d hd)]
  rw [trimmed, hlow, trim_matches_append_right fun c hc => List.mem_rtakeWhile_imp hc,
    trim_matches_append_left fun c hc => List.mem_takeWhile_imp hc,
    trim_matches_eq_self (fun c hc => hkept c (List.mem_of_mem_head? hc)) fun c hc => hkept c (List.mem_of_getLast? hc),
    hmiddle.eq_flatMap h.no_sigma]

theorem Plain.found {d : String} (h : Plain t word) (hlong : 3 ≤ (trim_matches t.is_edge word).length)
    (hword : word ∈ split_whitespace t.unicode d) : trimmed t (t.lower word) ∈ tokenize_text t.unicode d := by
  obtain ⟨-, before, after, hstands⟩ := mem_split_whitespace.1 hword
  have hplace := h.stands hstands (t.lowers_lower d.toList)
  have hlength := (t.lowers_lower (trim_matches t.is_edge word)).length_le
  rw [(t.lowers_lower _).eq_flatMap h.no_sigma] at hlength
  rw [h.trimmed_lower, mem_tokenize_text]
  refine ⟨by omega, fun d hd => ?_, ?_⟩
  · obtain ⟨c, hc, hd⟩ := List.mem_flatMap.1 hd
    exact h.letters c hc d hd
  · simpa [CharTable.unicode] using hplace

/-! ## Other words are not -/

/-- What is trimmed off the lower case of a trimmed word are marks of its last letter. -/
theorem word_of_trimmed_off {text token rest : List Char} (h : t.Lowers text (token ++ rest))
    (hlast : ∀ c, text.getLast? = some c → t.is_alphanumeric c) (hrest : ∀ c ∈ rest, t.is_edge c) :
    ∀ c ∈ rest, t.is_word c := by
  rcases List.eq_nil_or_concat text with rfl | ⟨text, l, rfl⟩
  · generalize hlow : token ++ rest = low at h
    cases h
    rw [(List.append_eq_nil_iff.1 hlow).2]
    exact fun c hc => absurd hc List.not_mem_nil
  · have hl := hlast l (by simp)
    rw [List.concat_eq_append] at h
    obtain ⟨a, piece, hsplit, -, hpiece⟩ := h.append_inv
    have hmem : ∀ c ∈ rest, c ∈ piece := by
      obtain ⟨d, marks, hcons, hd⟩ := middle_eq_cons hpiece (by simp) fun c hc => by cases hc; exact hl
      rw [List.append_eq_append_iff] at hsplit
      rcases hsplit with ⟨b, -, hb⟩ | ⟨b, -, hb⟩
      · -- the last letter would be trimmed off
        have hedge := hrest d (by rw [hb, hcons]; simp)
        simp [CharTable.is_edge, hd] at hedge
      · intro c hc
        rw [hb]
        exact List.mem_append_right b hc
    intro c hc
    have hpiece' := hmem c hc
    rcases hpiece.singleton_inv with rfl | ⟨-, rfl⟩
    · refine t.lower_word (fun hsame => ?_) hpiece'
      rw [hsame, List.mem_singleton] at hpiece'
      have hedge := hrest c hc
      simp [CharTable.is_edge, hpiece', hl] at hedge
    · have hedge := hrest c hc
      rw [List.mem_singleton.1 hpiece'] at hedge
      simp [CharTable.is_edge, t.alphanumeric_final_sigma] at hedge

/-- The token begins where the lower-cased trimmed word does. -/
theorem exists_token {text middle : List Char} (h : t.Lowers (trim_matches t.is_edge text) middle)
    (hne : trim_matches t.is_edge text ≠ []) : ∃ token rest, middle = token ++ rest ∧
      trim_matches t.is_edge middle = token ∧ ∀ c ∈ rest, t.is_edge c := by
  obtain ⟨d, marks, hcons, hd⟩ := middle_eq_cons h hne fun c => alphanumeric_of_head
  obtain ⟨pre, rest, hmiddle, hpre, hrest⟩ := exists_trim t.is_edge middle
  refine ⟨trim_matches t.is_edge middle, rest, ?_, rfl, hrest⟩
  cases pre with
  | nil => exact hmiddle
  | cons c pre =>
    have hedge := hpre c List.mem_cons_self
    rw [hcons] at hmiddle
    rw [← (List.cons.inj hmiddle).1, CharTable.is_edge, hd] at hedge
    cases hedge

/-- The word on its own: the letters of its token stand where the trimmed word was. -/
theorem plain_of_found (hlong : 3 ≤ (trim_matches t.is_edge word).length)
    (h : trimmed t (t.lower word) ∈ tokenize_text t.unicode (String.ofList word)) : Plain t word := by
  obtain ⟨middle, hlow, hmiddle⟩ := lowers_parts (t.lowers_lower word)
  have hne : trim_matches t.is_edge word ≠ [] := by
    intro hnil
    simp [hnil] at hlong
  obtain ⟨token, rest, rfl, htoken, hrest⟩ := exists_token hmiddle hne
  obtain ⟨htwo, hletters, before, after, hstands⟩ := mem_tokenize_text.1 h
  have hplace : trim_matches t.is_edge (t.lower word) = token := by
    rw [hlow, trim_matches_append_right fun c hc => List.mem_rtakeWhile_imp hc,
      trim_matches_append_left fun c hc => List.mem_takeWhile_imp hc, htoken]
  rw [hplace] at htwo hletters hstands
  have hlist := hstands.list_eq
  simp only [CharTable.unicode, String.toList_ofList] at hlist
  rw [hlow, ← List.append_assoc, List.append_assoc _ rest] at hlist
  obtain ⟨rfl, rfl⟩ := place_unique (p := t.is_edge)
    (fun c hc => by simp [CharTable.is_edge, CharTable.alphanumeric_of_letter (hletters c hc)])
    (by rintro rfl; cases htwo) (fun c hc => List.mem_takeWhile_imp hc)
    (fun c hc => (List.mem_append.1 hc).elim (hrest c) List.mem_rtakeWhile_imp) hlist.symm
  have hnone : rest = [] := by
    cases rest with
    | nil => rfl
    | cons c rest =>
      have hword := word_of_trimmed_off hmiddle (fun c => alphanumeric_of_last) hrest c List.mem_cons_self
      have hends := hstands.ends c rfl
      simp [CharTable.unicode, hword] at hends
  subst hnone
  rw [List.append_nil] at hmiddle
  refine ⟨fun c hc d hd => ?_, fun c hc => ?_, fun c hc => ?_⟩
  · exact hmiddle.forall_pieces (P := fun d => is_letter d) hletters (by decide) hc hd
  · simpa [CharTable.unicode] using hstands.starts c hc
  · simpa [CharTable.unicode] using hstands.ends c hc

/-- Exactly the plain words are found in every document they stand in. -/
theorem found_iff_plain (t : CharTable) (word : List Char) (hfree : ∀ c ∈ word, t.is_whitespace c = false)
    (hlong : 3 ≤ (trim_matches t.is_edge word).length) :
    (∀ d, word ∈ split_whitespace t.unicode d → ∀ token ∈ tokenize_query t.unicode (String.ofList word),
      token ∈ tokenize_text t.unicode d) ↔ Plain t word := by
  constructor
  · intro h
    refine plain_of_found hlong (h (String.ofList word) ?_ _ ((mem_tokenize_query_word hfree hlong).2 rfl))
    have hne : word ≠ [] := by
      rintro rfl
      simp [trim_matches] at hlong
    exact mem_split_whitespace.2 ⟨hne, [], [], by simp, hfree, by simp, by simp⟩
  · intro h d hword token htoken
    rw [(mem_tokenize_query_word hfree hlong).1 htoken]
    exact h.found hlong hword

theorem rust_free : ∀ c ∈ "(Rust),".toList, CharTable.basic.is_whitespace c = false := by
  intro c hc
  have hall : "(Rust),".toList.all fun c => !CharTable.basic.is_whitespace c := by decide
  simpa using List.all_eq_true.1 hall c hc

theorem found_in_brackets : (∀ d, "(Rust),".toList ∈ split_whitespace CharTable.basic.unicode d →
    ∀ token ∈ tokenize_query CharTable.basic.unicode "(Rust),", token ∈ tokenize_text CharTable.basic.unicode d) ↔
      Plain .basic "(Rust),".toList :=
  found_iff_plain .basic "(Rust),".toList rust_free (by decide)

theorem apostrophe_lost : ¬ ∀ (t : CharTable) (d : String) (word : List Char), word ∈ split_whitespace t.unicode d →
    3 ≤ (trim_matches t.is_edge word).length → (∃ c ∈ trim_matches t.is_edge word, is_letter c) →
      ∀ token ∈ tokenize_query t.unicode (String.ofList word), token ∈ tokenize_text t.unicode d := by
  intro h
  have hletter : ∃ c ∈ trim_matches CharTable.basic.is_edge "don't".toList, is_letter c := List.any_eq_true.1 (by decide)
  have hfound := h .basic "don't stop" "don't".toList (by decide) (by decide) hletter "don't" (by decide)
  exact absurd hfound (by decide)

end Search
