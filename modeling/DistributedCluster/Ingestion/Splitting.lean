import DistributedCluster.Ingestion.Gutenberg
import DistributedCluster.Lib.Occurrence
/-!
# Where a text is cut

`split_gutenberg_text` cuts at the first occurrences of its markers. The markers
cannot overlap, so no cut is out of range. The rest of the start marker's line
stays with the body.
-/

namespace Ingestion

open Occurrence

/-! ## The first occurrence -/

section Find

variable {pattern text : List Char} {i : Nat}

theorem find_eq_some_iff (hp : pattern ≠ []) : find pattern text = some i ↔ First pattern text i := by
  induction text generalizing i with
  | nil =>
    rw [find, if_neg (by simpa using hp)]
    exact ⟨fun h => (by cases h), fun h => absurd h.here (not_at_nil hp i)⟩
  | cons c text ih =>
    rw [find]
    by_cases hprefix : pattern <+: c :: text
    · rw [if_pos (List.isPrefixOf_iff_prefix.2 hprefix), Option.some.injEq]
      have hzero : First pattern (c :: text) 0 := ⟨at_zero_iff.2 hprefix, fun j _ => Nat.zero_le j⟩
      exact ⟨fun h => h ▸ hzero, fun h => hzero.unique h⟩
    · rw [if_neg fun h => hprefix (List.isPrefixOf_iff_prefix.1 h), Option.map_eq_some_iff]
      constructor
      · rintro ⟨j, hj, rfl⟩
        obtain ⟨hhere, hleast⟩ := ih.1 hj
        refine ⟨at_succ_iff.2 hhere, fun k hk => ?_⟩
        cases k with
        | zero => exact absurd (at_zero_iff.1 hk) hprefix
        | succ k => exact Nat.succ_le_succ (hleast k (at_succ_iff.1 hk))
      · rintro ⟨hhere, hleast⟩
        cases i with
        | zero => exact absurd (at_zero_iff.1 hhere) hprefix
        | succ i =>
          exact ⟨i, ih.2 ⟨at_succ_iff.1 hhere, fun k hk => Nat.le_of_succ_le_succ (hleast (k + 1) (at_succ_iff.2 hk))⟩, rfl⟩

end Find

theorem start_marker_ne_nil : START_MARKER ≠ [] := by decide
theorem end_marker_ne_nil : END_MARKER ≠ [] := by decide
theorem star_mem_start_marker : '*' ∈ START_MARKER := by decide

/-- The stars are at the front of a marker only, three of them, so that no marker
begins inside another. -/
theorem start_apart_end : Apart START_MARKER END_MARKER := by decide
theorem start_apart_start : Apart START_MARKER START_MARKER := by decide
theorem end_apart_start : Apart END_MARKER START_MARKER := by decide

/-! ## The cut -/

/-- The text around the first occurrences of the two markers, in that order. -/
structure Cut (text pre mid post : List Char) : Prop where
  text_eq : text = pre ++ START_MARKER ++ mid ++ END_MARKER ++ post
  start : First START_MARKER text pre.length
  stop : First END_MARKER text (pre ++ START_MARKER ++ mid).length

variable {rules : TextRules}

theorem split_of_cut {text : String} {pre mid post : List Char} (h : Cut text.toList pre mid post) :
    split_gutenberg_text rules text = some (some (trim rules pre, trim rules mid)) := by
  have hlength : text.toList.length = pre.length + START_MARKER.length + mid.length + END_MARKER.length + post.length := by
    rw [h.text_eq]
    simp [Nat.add_assoc]
  have hstop : (pre ++ START_MARKER ++ mid).length = pre.length + START_MARKER.length + mid.length := by simp [Nat.add_assoc]
  have hpos := List.length_pos_iff.2 start_marker_ne_nil
  have hheader : slice text.toList 0 pre.length = some pre := by
    rw [slice, if_pos (by omega), h.text_eq]
    simp
  have hbody : slice text.toList (pre.length + START_MARKER.length) (pre ++ START_MARKER ++ mid).length = some mid := by
    rw [slice, if_pos (by omega), h.text_eq, List.append_assoc _ END_MARKER, List.take_left]
    simp
  unfold split_gutenberg_text
  simp only [(find_eq_some_iff start_marker_ne_nil).2 h.start, (find_eq_some_iff end_marker_ne_nil).2 h.stop]
  rw [if_neg (by omega), hheader]
  simp only [Option.bind_eq_bind, Option.bind_some]
  rw [hbody]
  rfl

/-- Either there is a cut or the answer is `None`. -/
theorem split_cases (rules : TextRules) (text : String) :
    (∃ pre mid post, Cut text.toList pre mid post) ∨
      split_gutenberg_text rules text = some none ∧ ∀ pre mid post, ¬ Cut text.toList pre mid post := by
  unfold split_gutenberg_text
  dsimp only
  split
  · rename_i start_idx end_idx hstart hend
    rw [find_eq_some_iff start_marker_ne_nil] at hstart
    rw [find_eq_some_iff end_marker_ne_nil] at hend
    split
    · refine .inr ⟨rfl, fun pre mid post hcut => ?_⟩
      have h₁ := hcut.start.unique hstart
      have h₂ := hcut.stop.unique hend
      have hpos := List.length_pos_iff.2 start_marker_ne_nil
      simp at h₂
      omega
    · left
      have hle := start_apart_end.le hstart.here hend.here (by omega)
      obtain ⟨pre, rest, htext, rfl⟩ := hstart.here
      obtain ⟨front, post, htext', rfl⟩ := hend.here
      -- the start marker lies in front of the end marker
      have hpre : pre ++ START_MARKER <+: text.toList := ⟨rest, htext.symm⟩
      have hfront : front <+: text.toList := ⟨END_MARKER ++ post, by rw [htext', List.append_assoc]⟩
      obtain ⟨mid, rfl⟩ : pre ++ START_MARKER <+: front :=
        List.prefix_of_prefix_length_le hpre hfront (by simpa using hle)
      exact ⟨pre, mid, post, htext', hstart, hend⟩
  · rename_i hnone
    refine .inr ⟨rfl, fun pre mid post hcut => ?_⟩
    exact hnone _ _ ((find_eq_some_iff start_marker_ne_nil).2 hcut.start) ((find_eq_some_iff end_marker_ne_nil).2 hcut.stop)

theorem Cut.append_right {text pre mid post : List Char} (h : Cut text pre mid post) (more : List Char) :
    Cut (text ++ more) pre mid (post ++ more) :=
  ⟨by rw [h.text_eq]; simp, h.start.append_right more, h.stop.append_right more⟩

/-- Splitting never panics. A header and a body are the trimmed texts before and
between the first occurrences of the markers. -/
theorem split_sound (rules : TextRules) (text : String) :
    split_gutenberg_text rules text ≠ none ∧
      (∀ start_idx end_idx, find START_MARKER text.toList = some start_idx → find END_MARKER text.toList = some end_idx →
        start_idx < end_idx → start_idx + START_MARKER.length ≤ end_idx) ∧
      ∀ header body, split_gutenberg_text rules text = some (some (header, body)) →
        ∃ pre mid post, text.toList = pre ++ START_MARKER ++ mid ++ END_MARKER ++ post ∧
          header = trim rules pre ∧ body = trim rules mid ∧
          (∀ p q, text.toList = p ++ START_MARKER ++ q → pre.length ≤ p.length) ∧
          ∀ p q, text.toList = p ++ END_MARKER ++ q → (pre ++ START_MARKER ++ mid).length ≤ p.length := by
  refine ⟨?_, fun start_idx end_idx hstart hend hlt => ?_, fun header body h => ?_⟩
  · rcases split_cases rules text with ⟨pre, mid, post, hcut⟩ | ⟨hnone, -⟩
    · rw [split_of_cut hcut]
      simp
    · rw [hnone]
      simp
  · rw [find_eq_some_iff start_marker_ne_nil] at hstart
    rw [find_eq_some_iff end_marker_ne_nil] at hend
    exact start_apart_end.le hstart.here hend.here hlt
  · rcases split_cases rules text with ⟨pre, mid, post, hcut⟩ | ⟨hnone, -⟩
    · rw [split_of_cut hcut] at h
      cases h
      exact ⟨pre, mid, post, hcut.text_eq, rfl, rfl, fun p q hp => hcut.start.least _ ⟨p, q, hp, rfl⟩,
        fun p q hp => hcut.stop.least _ ⟨p, q, hp, rfl⟩⟩
    · rw [hnone] at h
      cases h

/-! ## The body of a book -/

/-- A line that begins with the start marker, and a later one that begins with the
end marker. Between the two there is neither marker. -/
structure Marked (text before rest mid after : List Char) : Prop where
  text_eq : text = before ++ START_MARKER ++ rest ++ '\n' :: mid ++ END_MARKER ++ after
  line_start : before = [] ∨ before.getLast? = some '\n'
  line_rest : '\n' ∉ rest
  line_end : mid = [] ∨ mid.getLast? = some '\n'
  between : ∀ i, before.length < i → i < (before ++ START_MARKER ++ rest ++ '\n' :: mid).length →
    ¬ At START_MARKER text i ∧ ¬ At END_MARKER text i

section Marked

variable {text before rest mid after : List Char}

theorem Marked.before_append (h : Marked text before rest mid after) :
    text = before ++ (START_MARKER ++ rest ++ '\n' :: mid ++ END_MARKER ++ after) := by
  rw [h.text_eq]
  simp

theorem Marked.start_at (h : Marked text before rest mid after) : At START_MARKER text before.length :=
  ⟨before, rest ++ '\n' :: mid ++ END_MARKER ++ after, by rw [h.text_eq]; simp, rfl⟩

theorem Marked.end_at (h : Marked text before rest mid after) :
    At END_MARKER text (before ++ START_MARKER ++ rest ++ '\n' :: mid).length := ⟨_, after, h.text_eq, rfl⟩

/-- An end marker is the one of the later line, or ends before the earlier line. -/
theorem Marked.end_cases (h : Marked text before rest mid after) {j : Nat} (hj : At END_MARKER text j) :
    j + END_MARKER.length ≤ before.length ∨ (before ++ START_MARKER ++ rest ++ '\n' :: mid).length ≤ j := by
  by_contra hcon
  rw [not_or, Nat.not_le, Nat.not_le] at hcon
  rcases Nat.lt_trichotomy j before.length with hlt | rfl | hgt
  · have hle := end_apart_start.le hj h.start_at hlt
    omega
  · -- one text cannot go on with both markers
    obtain ⟨post, hpost⟩ := hj.drop_eq
    obtain ⟨post', hpost'⟩ := h.start_at.drop_eq
    have hprefix : END_MARKER <+: START_MARKER :=
      List.prefix_of_prefix_length_le ⟨post, hpost.symm⟩ ⟨post', hpost'.symm⟩ (by decide)
    exact absurd hprefix (by decide)
  · exact (h.between j hgt hcon.2).2 hj

/-- The cut of a text whose first markers are those of the two lines. -/
theorem Marked.cut (h : Marked text before rest mid after) (hstart : ¬ START_MARKER <:+: before)
    (hend : ¬ END_MARKER <:+: before) : Cut text before (rest ++ '\n' :: mid) after := by
  refine ⟨by rw [h.text_eq]; simp, ⟨h.start_at, fun j hj => ?_⟩, ⟨by simpa using h.end_at, fun j hj => ?_⟩⟩
  · by_contra hlt
    have hle := start_apart_start.le hj h.start_at (by omega)
    rw [h.before_append] at hj
    exact hstart (exists_at_iff.1 ⟨j, hj.of_append hle⟩)
  · rcases h.end_cases hj with hle | hge
    · rw [h.before_append] at hj
      exact absurd (exists_at_iff.1 ⟨j, hj.of_append hle⟩) hend
    · simpa using hge

/-- Any cut lies before the two lines, or ends at the later line and begins at the
earlier one or at a marker before it. -/
theorem Marked.cut_cases (h : Marked text before rest mid after) {pre copy post : List Char} (hcut : Cut text pre copy post) :
    (∃ post', Cut before pre copy post') ∨
      (copy = rest ++ '\n' :: mid ∧ ¬ START_MARKER <:+: before ∧ ¬ END_MARKER <:+: before) ∨
      ∃ front, copy = front ++ START_MARKER ++ (rest ++ '\n' :: mid) := by
  have hstart := hcut.start.least _ h.start_at
  rcases h.end_cases hcut.stop.here with hin | hge
  · left
    have htext := h.before_append
    have hprefix : pre ++ START_MARKER ++ copy ++ END_MARKER <+: text := ⟨post, hcut.text_eq.symm⟩
    obtain ⟨post', hpost'⟩ : pre ++ START_MARKER ++ copy ++ END_MARKER <+: before :=
      List.prefix_of_prefix_length_le hprefix ⟨_, htext.symm⟩ (by simpa [Nat.add_assoc] using hin)
    refine ⟨post', hpost'.symm, First.of_append (htext ▸ hcut.start) ?_, First.of_append (htext ▸ hcut.stop) hin⟩
    have hlength := congrArg List.length hpost'
    simp at hlength
    omega
  · right
    have hlength : (pre ++ START_MARKER ++ copy).length = (before ++ START_MARKER ++ rest ++ '\n' :: mid).length :=
      Nat.le_antisymm (hcut.stop.least _ h.end_at) hge
    have htext : pre ++ START_MARKER ++ copy ++ (END_MARKER ++ post) =
        before ++ START_MARKER ++ rest ++ '\n' :: mid ++ (END_MARKER ++ after) := by
      rw [← List.append_assoc, ← List.append_assoc, ← hcut.text_eq, ← h.text_eq]
    have hsame := (List.append_inj htext hlength).1
    rcases Nat.lt_or_eq_of_le hstart with hlt | heq
    · right
      have hle := start_apart_start.le hcut.start.here h.start_at hlt
      have hprefix : pre ++ START_MARKER <+: text := ⟨copy ++ END_MARKER ++ post, by rw [hcut.text_eq]; simp⟩
      obtain ⟨front, rfl⟩ : pre ++ START_MARKER <+: before :=
        List.prefix_of_prefix_length_le hprefix ⟨_, h.before_append.symm⟩ (by simpa using hle)
      exact ⟨front, by simpa using hsame⟩
    · left
      rw [List.append_assoc pre, List.append_assoc before, List.append_assoc before] at hsame
      obtain ⟨rfl, hrest⟩ := List.append_inj hsame heq
      refine ⟨by simpa using hrest, fun hinfix => ?_, fun hinfix => ?_⟩
      · obtain ⟨i, hi⟩ := exists_at_iff.2 hinfix
        have hfirst := hcut.start.least i (h.before_append ▸ hi.append_right _)
        have hend := hi.length_le
        have hpos := List.length_pos_iff.2 start_marker_ne_nil
        omega
      · obtain ⟨i, hi⟩ := exists_at_iff.2 hinfix
        have hfirst := hcut.stop.least i (h.before_append ▸ hi.append_right _)
        have hend := hi.length_le
        have hpos := List.length_pos_iff.2 end_marker_ne_nil
        simp at hfirst
        omega

end Marked

/-- Up to the end of a line, nothing but blanks is trimmed off a body. -/
theorem trim_line_iff (hnewline : rules.is_whitespace '\n' = true) {line mid : List Char} :
    trim rules (line ++ '\n' :: mid) = trim rules mid ↔ ∀ c ∈ line, rules.is_whitespace c := by
  rw [trim, trim, String.ofList_inj, ← List.singleton_append, ← List.append_assoc, trim_matches_append_iff]
  simp [or_imp, forall_and, hnewline]

/-- The body is the text between the two lines if and only if no marker comes before
and the rest of the first line is blank, or an earlier pair of markers encloses the
same text. -/
theorem body_between_lines_iff (rules : TextRules) (hnewline : rules.is_whitespace '\n' = true)
    (hstar : rules.is_whitespace '*' = false) (text : String) {before rest mid after : List Char}
    (h : Marked text.toList before rest mid after) :
    (∃ header, split_gutenberg_text rules text = some (some (header, trim rules mid))) ↔
      (¬ START_MARKER <:+: before ∧ ¬ END_MARKER <:+: before ∧ ∀ c ∈ rest, rules.is_whitespace c) ∨
        ∃ pre copy post, Cut before pre copy post ∧ trim rules copy = trim rules mid := by
  constructor
  · rintro ⟨header, hsplit⟩
    rcases split_cases rules text with ⟨pre, copy, post, hcut⟩ | ⟨hnone, -⟩
    · rw [split_of_cut hcut] at hsplit
      simp only [Option.some.injEq, Prod.mk.injEq] at hsplit
      obtain ⟨-, hbody⟩ := hsplit
      rcases h.cut_cases hcut with ⟨post', hearlier⟩ | ⟨rfl, hstart, hend⟩ | ⟨front, rfl⟩
      · exact .inr ⟨pre, copy, post', hearlier, hbody⟩
      · exact .inl ⟨hstart, hend, (trim_line_iff hnewline).1 hbody⟩
      · -- the marker itself would have to be blank
        rw [← List.append_assoc, trim_line_iff hnewline] at hbody
        have hblank := hbody '*' (List.mem_append_left _ (List.mem_append_right _ star_mem_start_marker))
        rw [hstar] at hblank
        cases hblank
    · rw [hnone] at hsplit
      cases hsplit
  · rintro (⟨hstart, hend, hblank⟩ | ⟨pre, copy, post, hcut, hsame⟩)
    · refine ⟨trim rules before, ?_⟩
      have hbody : trim rules (rest ++ '\n' :: mid) = trim rules mid := (trim_line_iff hnewline).2 hblank
      rw [← hbody]
      exact split_of_cut (h.cut hstart hend)
    · refine ⟨trim rules pre, ?_⟩
      rw [← hsame]
      exact split_of_cut (h.before_append ▸ hcut.append_right _)

section Example

def marked_text (title : String) : String :=
  "*** START OF THE PROJECT GUTENBERG EBOOK" ++ title ++ "\nEmma the heroine\n*** END OF THE PROJECT GUTENBERG EBOOK"

def heroine : List Char := "Emma the heroine\n".toList

theorem marked_blank : Marked (marked_text "\r").toList [] ['\r'] heroine [] := by
  refine ⟨by decide +kernel, by decide, by decide, by decide, ?_⟩
  have hbetween : ∀ i < ([] ++ START_MARKER ++ ['\r'] ++ '\n' :: heroine).length, ([] : List Char).length < i →
      ¬ At START_MARKER (marked_text "\r").toList i ∧ ¬ At END_MARKER (marked_text "\r").toList i := by decide +kernel
  exact fun i hlow hhigh => hbetween i hhigh hlow

theorem marked_title : Marked (marked_text " EMMA").toList [] " EMMA".toList heroine [] := by
  refine ⟨by decide +kernel, by decide, by decide, by decide, ?_⟩
  have hbetween : ∀ i < ([] ++ START_MARKER ++ " EMMA".toList ++ '\n' :: heroine).length, ([] : List Char).length < i →
      ¬ At START_MARKER (marked_text " EMMA").toList i ∧ ¬ At END_MARKER (marked_text " EMMA").toList i := by decide +kernel
  exact fun i hlow hhigh => hbetween i hhigh hlow

/-- Nothing else stands on the start marker's line. -/
theorem body_between_blank : ∃ header,
    split_gutenberg_text .ascii (marked_text "\r") = some (some (header, trim .ascii heroine)) :=
  (body_between_lines_iff .ascii (by decide) (by decide) _ marked_blank).2
    (.inl ⟨by decide, by decide, List.forall_mem_singleton.2 (by decide)⟩)

/-- The title on the start marker's line is part of the body. -/
theorem body_with_title : ¬ ∀ (rules : TextRules) (text : String) (before rest mid after : List Char),
    rules.is_whitespace '\n' = true → rules.is_whitespace '*' = false → Marked text.toList before rest mid after →
    ∃ header, split_gutenberg_text rules text = some (some (header, trim rules mid)) := by
  intro h
  obtain ⟨header, hsplit⟩ := h .ascii (marked_text " EMMA") [] " EMMA".toList heroine [] (by decide) (by decide) marked_title
  have hbody : (split_gutenberg_text .ascii (marked_text " EMMA")).map (fun o => o.map Prod.snd) =
      some (some "EMMA\nEmma the heroine") := by decide +kernel
  rw [hsplit] at hbody
  simp only [Option.map_some, Option.some.injEq] at hbody
  exact absurd hbody (by decide +kernel)

end Example

end Ingestion
