import DistributedCluster.Search.Engine
import Mathlib.Algebra.Order.BigOperators.Group.List
/-!
# What a score counts

The score of a book adds up over the words of the query, so a word that is there
twice counts twice. The distinct words are what the score is documented to count.
-/

namespace Search

open Async

variable {index : String → Option (List String)} {books : String → Option BookMetadata} {tokens : List String}

/-- How many different words of the query list the book. -/
def distinct_score (index : String → Option (List String)) (tokens : List String) (book_id : String) : Nat :=
  (tokens.dedup.filter fun token => book_id ∈ (index token).getD []).length

/-- The books that have metadata and are listed for some token, each once, with
scores by `f`. -/
def scored (index : String → Option (List String)) (books : String → Option BookMetadata) (tokens : List String)
    (f : String → Nat) : List (BookMetadata × Nat) :=
  (listed index tokens).filterMap fun book_id => (books book_id).map fun metadata => (metadata, f book_id)

/-- No posting list names a book twice. -/
def PostingsNodup (index : String → Option (List String)) : Prop := ∀ token book_ids, index token = some book_ids → book_ids.Nodup

theorem PostingsNodup.count (h : PostingsNodup index) (token book_id : String) :
    ((index token).getD []).count book_id = if book_id ∈ (index token).getD [] then 1 else 0 := by
  cases hindex : index token with
  | none => simp
  | some book_ids => simpa using (h token book_ids hindex).count

theorem score_eq_length (h : PostingsNodup index) (book_id : String) :
    score index tokens book_id = (tokens.filter fun token => book_id ∈ (index token).getD []).length := by
  unfold score
  induction tokens with
  | nil => rfl
  | cons token tokens ih =>
    rw [List.map_cons, List.sum_cons, ih, h.count]
    by_cases hmem : book_id ∈ (index token).getD []
    · simp [hmem]
      omega
    · simp [hmem]

/-- The distinct words of a list are among its words, and are all of them exactly
if no word is repeated. -/
theorem length_filter_dedup {α : Type} [DecidableEq α] (p : α → Bool) (l : List α) :
    (l.dedup.filter p).length ≤ (l.filter p).length ∧
      ((l.dedup.filter p).length = (l.filter p).length ↔ ∀ a ∈ l, p a → l.count a ≤ 1) := by
  have hsub : (l.dedup.filter p).Sublist (l.filter p) := l.dedup_sublist.filter p
  refine ⟨hsub.length_le, ?_, ?_⟩
  · intro hlen a _ ha
    have hnodup : (l.filter p).Nodup := hsub.eq_of_length hlen ▸ l.nodup_dedup.filter p
    have hcount := List.nodup_iff_count_le_one.1 hnodup a
    rwa [List.count_filter ha] at hcount
  · intro honce
    have hnodup : (l.filter p).Nodup := by
      rw [List.nodup_iff_count_le_one]
      intro a
      by_cases ha : a ∈ l.filter p
      · obtain ⟨hmem, hp⟩ := List.mem_filter.1 ha
        rw [List.count_filter hp]
        exact honce a hmem hp
      · rw [List.count_eq_zero_of_not_mem ha]
        exact Nat.zero_le 1
    apply le_antisymm hsub.length_le
    apply (hnodup.subperm fun a ha => ?_).length_le
    simpa using ha

theorem distinct_score_le (h : PostingsNodup index) (book_id : String) :
    distinct_score index tokens book_id ≤ score index tokens book_id := by
  rw [score_eq_length h]
  exact (length_filter_dedup _ tokens).1

theorem distinct_score_eq_iff (h : PostingsNodup index) (book_id : String) :
    score index tokens book_id = distinct_score index tokens book_id ↔
      ∀ token ∈ tokens, book_id ∈ (index token).getD [] → tokens.count token ≤ 1 := by
  rw [score_eq_length h, eq_comm, distinct_score, (length_filter_dedup _ tokens).2]
  simp

/-! ## The results of a search -/

/-- A search answers exactly the matching books with their scores, sorted. -/
theorem search_returns {unicode : Unicode} {query : String} {r : List (BookMetadata × Nat)}
    (h : Runs (StoreSem index books) Eq (search unicode query) () r ()) :
    r.Perm (scored index books (tokenize_query unicode query) (score index (tokenize_query unicode query))) ∧
      r.Pairwise fun a b => b.2 ≤ a.2 := by
  obtain ⟨order, hperm, rfl⟩ := runs_search.1 h
  refine ⟨?_, rank_sorted _⟩
  have hbooks := (hperm.trans book_scores_iter).filterMap fun e => (books e.1).map fun metadata => (metadata, e.2)
  rw [List.filterMap_map] at hbooks
  exact (List.mergeSort_perm _ _).trans hbooks

theorem exists_search (index : String → Option (List String)) (books : String → Option BookMetadata) (unicode : Unicode)
    (query : String) : ∃ r, Runs (StoreSem index books) Eq (search unicode query) () r () :=
  ⟨_, runs_search.2 ⟨_, .refl _, rfl⟩⟩

/-- Scores that are at least as high add up to the same only if they are the same. -/
theorem scored_perm {f g : String → Nat} (hle : ∀ b, g b ≤ f b)
    (h : (scored index books tokens f).Perm (scored index books tokens g)) :
    ∀ b ∈ listed index tokens, books b ≠ none → f b = g b := by
  have hsum := (h.map Prod.snd).sum_eq
  unfold scored at hsum
  generalize listed index tokens = ids at hsum
  have key : ∀ (ids : List String) (f : String → Nat),
      ((ids.filterMap fun b => (books b).map fun m => (m, f b)).map Prod.snd).sum =
      (ids.map fun b => if (books b).isSome then f b else 0).sum := by
    intro ids f
    induction ids with
    | nil => rfl
    | cons b ids ih =>
      cases hb : books b with
      | none => simp [hb, ih]
      | some m => simp [hb, ih]
  rw [key, key] at hsum
  clear key
  induction ids with
  | nil => simp
  | cons b ids ih =>
    simp only [List.map_cons, List.sum_cons] at hsum
    have hrest : (ids.map fun b => if (books b).isSome then g b else 0).sum ≤
        (ids.map fun b => if (books b).isSome then f b else 0).sum := by
      apply List.sum_le_sum
      intro c _
      split
      · exact hle c
      · exact Nat.le_refl 0
    have hb := hle b
    intro c hc hsome
    rcases List.mem_cons.1 hc with rfl | hc
    · rw [if_pos (Option.isSome_iff_ne_none.2 hsome), if_pos (Option.isSome_iff_ne_none.2 hsome)] at hsum
      omega
    · refine ih ?_ c hc hsome
      split at hsum <;> omega

/-- A search finds the right books with their documented scores, whatever the order of
iteration, exactly if no book that has metadata is listed for a repeated word. -/
theorem documented_score_iff (unicode : Unicode) (index : String → Option (List String)) (books : String → Option BookMetadata)
    (query : String) (hindex : PostingsNodup index) :
    (∀ r, Runs (StoreSem index books) Eq (search unicode query) () r () →
      r.Perm (scored index books (tokenize_query unicode query) (distinct_score index (tokenize_query unicode query))) ∧
        r.Pairwise fun a b => b.2 ≤ a.2) ↔
    ∀ token, 1 < (tokenize_query unicode query).count token → ∀ book_id ∈ (index token).getD [], books book_id = none := by
  constructor
  · intro h token hrepeated book_id hmem
    by_contra hsome
    obtain ⟨r, hr⟩ := exists_search index books unicode query
    have hperm := (search_returns hr).1.symm.trans (h r hr).1
    have htoken : token ∈ tokenize_query unicode query := List.count_pos_iff.1 (by omega)
    have hlisted : book_id ∈ listed index (tokenize_query unicode query) := by
      rw [listed, List.mem_dedup, List.mem_flatMap]
      exact ⟨token, htoken, hmem⟩
    have hequal := scored_perm (distinct_score_le hindex) hperm book_id hlisted hsome
    have honce := (distinct_score_eq_iff hindex book_id).1 hequal token htoken hmem
    omega
  · intro hclean r hr
    obtain ⟨hperm, hsorted⟩ := search_returns hr
    refine ⟨?_, hsorted⟩
    have hsame : scored index books (tokenize_query unicode query) (score index (tokenize_query unicode query)) =
        scored index books (tokenize_query unicode query) (distinct_score index (tokenize_query unicode query)) := by
      unfold scored
      apply List.filterMap_congr
      intro book_id _
      cases hbook : books book_id with
      | none => rfl
      | some metadata =>
        have hequal : score index (tokenize_query unicode query) book_id =
            distinct_score index (tokenize_query unicode query) book_id := by
          rw [distinct_score_eq_iff hindex]
          intro token _ hmem
          by_contra hrepeated
          have hnone := hclean token (by omega) book_id hmem
          rw [hbook] at hnone
          cases hnone
        simp [hequal]
    rwa [hsame] at hperm

section Example

theorem rust_index_nodup : PostingsNodup rust_index := by
  intro token book_ids h
  unfold rust_index at h
  split at h
  · cases h
    decide
  · cases h

/-- A word of the query that is there once. -/
theorem documented_score_rust : ∃ r, Runs (StoreSem rust_index rust_books) Eq (search .ascii "(Rust) book") () r () ∧
    r.Perm (scored rust_index rust_books (tokenize_query .ascii "(Rust) book")
      (distinct_score rust_index (tokenize_query .ascii "(Rust) book"))) := by
  have htokens : tokenize_query .ascii "(Rust) book" = ["rust", "book"] := by decide
  obtain ⟨r, hr⟩ := exists_search rust_index rust_books .ascii "(Rust) book"
  refine ⟨r, hr, ((documented_score_iff .ascii rust_index rust_books "(Rust) book" rust_index_nodup).2 ?_ r hr).1⟩
  intro token hrepeated
  rw [htokens] at hrepeated
  have honce : (["rust", "book"] : List String).count token ≤ 1 :=
    List.nodup_iff_count_le_one.1 (by decide) token
  omega

/-- `Rust` and `(rust)` are one word, and both count. -/
theorem repeated_word_counts_twice :
    ¬ ∀ (unicode : Unicode) (index : String → Option (List String)) (books : String → Option BookMetadata) (query : String),
      PostingsNodup index → ∀ r, Runs (StoreSem index books) Eq (search unicode query) () r () →
        r.Perm (scored index books (tokenize_query unicode query) (distinct_score index (tokenize_query unicode query))) ∧
          r.Pairwise fun a b => b.2 ≤ a.2 := by
  intro h
  obtain ⟨r, hr⟩ := exists_search rust_index rust_books .ascii "Rust (rust)"
  have hperm := (search_returns hr).1.symm.trans (h .ascii rust_index rust_books "Rust (rust)" rust_index_nodup r hr).1
  exact absurd (scored_perm (distinct_score_le rust_index_nodup) hperm "1" (by decide) (by decide)) (by decide)

end Example

end Search
