import DistributedCluster.Lib.Words
import DistributedCluster.Search.Characters
/-!
# Words of texts and of queries

The tokens of a query are the trimmed words between white space, those of a text
the runs of letters. Trimming comes after short words are dropped, and a query
keeps what a text is cut at.
-/

namespace Search

open Words

variable {t : CharTable} {query : String}

theorem mem_split_whitespace {unicode : Unicode} {text : String} {word : List Char} :
    word ∈ split_whitespace unicode text ↔ word ≠ [] ∧ ∃ before after,
      Stands unicode.is_whitespace text.toList before word after := by
  rw [split_whitespace, List.mem_filter, mem_splitOnP_iff, decide_eq_true_eq, and_comm]

/-! ## The tokens of a query -/

/-- A word counts by its bytes. -/
def is_long (word : String) : Bool := 2 < word.utf8ByteSize

theorem is_long_iff {word : String} : is_long word ↔ 2 < word.utf8ByteSize := decide_eq_true_iff

def trimmed (t : CharTable) (word : List Char) : String := String.ofList (trim_matches t.is_edge word)

/-- The words of the lower-cased query. -/
def query_words (t : CharTable) (query : String) : List (List Char) :=
  split_whitespace t.unicode (t.unicode.to_lowercase query)

theorem tokenize_query_eq (t : CharTable) (query : String) : tokenize_query t.unicode query =
    (((query_words t query).filter fun word => is_long (String.ofList word)).map (trimmed t)).filter fun token => token ≠ "" := by
  have htrimmed : trimmed t = String.ofList ∘ trim_matches fun c => !t.is_alphanumeric c := rfl
  rw [htrimmed, ← List.map_map, List.filter_map]
  refine congrArg (List.map String.ofList) (List.filter_congr fun word _ => ?_)
  simp [String.ofList_eq_empty_iff]

theorem mem_tokenize_query {token : String} : token ∈ tokenize_query t.unicode query ↔
    ∃ word ∈ query_words t query, is_long (String.ofList word) ∧ trimmed t word = token ∧ token ≠ "" := by
  simp only [tokenize_query_eq, List.mem_filter, List.mem_map, decide_eq_true_eq]
  constructor
  · rintro ⟨⟨word, ⟨hword, hlong⟩, rfl⟩, hne⟩
    exact ⟨word, hword, hlong, rfl, hne⟩
  · rintro ⟨word, hword, hlong, rfl, hne⟩
    exact ⟨⟨word, ⟨hword, hlong⟩, rfl⟩, hne⟩

/-- Trimming takes bytes away. -/
theorem is_long_of_trimmed {word : List Char} (h : is_long (trimmed t word)) : is_long (String.ofList word) := by
  obtain ⟨pre, post, hword, -, -⟩ := exists_trim t.is_edge word
  rw [is_long_iff] at h ⊢
  rw [trimmed] at h
  rw [hword, String.ofList_append, String.ofList_append, String.utf8ByteSize_append, String.utf8ByteSize_append]
  omega

/-- Tokens are lower-case, begin and end with an alphanumeric character and are long;
and every word that is long when trimmed is there, in order. -/
structure Normalised (t : CharTable) (query : String) : Prop where
  lower : ∀ token ∈ tokenize_query t.unicode query, t.unicode.to_lowercase token = token
  edges : ∀ token ∈ tokenize_query t.unicode query, (∃ c, token.toList.head? = some c ∧ t.is_alphanumeric c) ∧
    ∃ c, token.toList.getLast? = some c ∧ t.is_alphanumeric c
  long : ∀ token ∈ tokenize_query t.unicode query, is_long token
  words : (tokenize_query t.unicode query).filter is_long = ((query_words t query).map (trimmed t)).filter is_long

theorem lower_of_token {token : String} (h : token ∈ tokenize_query t.unicode query) :
    t.unicode.to_lowercase token = token := by
  obtain ⟨word, hword, -, rfl, -⟩ := mem_tokenize_query.1 h
  obtain ⟨-, before, after, hstands⟩ := mem_split_whitespace.1 hword
  obtain ⟨pre, post, htrim, -, -⟩ := exists_trim t.is_edge word
  -- its characters come from the lower-cased query
  have hsettled : ∀ c ∈ trim_matches t.is_edge word, t.Settled c := by
    intro c hc
    refine (t.lowers_lower query.toList).settled ?_
    have hlist := hstands.list_eq
    simp only [CharTable.unicode, String.toList_ofList] at hlist
    rw [hlist, htrim]
    simp [hc]
  simp only [CharTable.unicode, trimmed, String.toList_ofList]
  rw [t.lower_eq_self hsettled]

theorem edges_of_token {token : String} (h : token ∈ tokenize_query t.unicode query) :
    (∃ c, token.toList.head? = some c ∧ t.is_alphanumeric c) ∧ ∃ c, token.toList.getLast? = some c ∧ t.is_alphanumeric c := by
  obtain ⟨word, -, -, rfl, hne⟩ := mem_tokenize_query.1 h
  simp only [trimmed, ne_eq, String.ofList_eq_empty_iff, String.toList_ofList] at hne ⊢
  constructor
  · refine ⟨_, List.head?_eq_some_head hne, ?_⟩
    simpa [CharTable.is_edge] using trim_matches_head (List.head?_eq_some_head hne)
  · refine ⟨_, List.getLast?_eq_some_getLast hne, ?_⟩
    simpa [CharTable.is_edge] using trim_matches_last (List.getLast?_eq_some_getLast hne)

theorem words_of_query (t : CharTable) (query : String) :
    (tokenize_query t.unicode query).filter is_long = ((query_words t query).map (trimmed t)).filter is_long := by
  have hne : ∀ token, is_long token → token ≠ "" := by
    rintro token h rfl
    exact absurd h (by decide)
  calc (tokenize_query t.unicode query).filter is_long
      = (((query_words t query).filter fun word => is_long (String.ofList word)).map (trimmed t)).filter is_long := by
        rw [tokenize_query_eq, List.filter_filter]
        refine List.filter_congr fun token _ => ?_
        by_cases hlong : is_long token
        · simp [hlong, hne token hlong]
        · simp [hlong]
    _ = ((query_words t query).map (trimmed t)).filter is_long := by
        rw [List.filter_map, List.filter_map, List.filter_filter]
        refine congrArg _ (List.filter_congr fun word _ => ?_)
        exact Bool.and_eq_left_iff_imp.2 is_long_of_trimmed

/-- A query is normalised exactly if trimming makes no long word short. -/
theorem normalised_iff (t : CharTable) (query : String) : Normalised t query ↔
    ∀ word ∈ query_words t query, is_long (String.ofList word) → trimmed t word = "" ∨ is_long (trimmed t word) := by
  constructor
  · intro h word hword hlong
    by_cases hne : trimmed t word = ""
    · exact .inl hne
    · exact .inr (h.long _ (mem_tokenize_query.2 ⟨word, hword, hlong, rfl, hne⟩))
  · intro h
    refine ⟨fun _ => lower_of_token, fun _ => edges_of_token, ?_, words_of_query t query⟩
    intro token htoken
    obtain ⟨word, hword, hlong, rfl, hne⟩ := mem_tokenize_query.1 htoken
    exact (h word hword hlong).resolve_left hne

/-- `(x)` has three bytes. -/
theorem short_token : ¬ Normalised .basic "(x)" := by
  intro h
  have hlong := h.long "x" (by decide)
  exact absurd hlong (by decide)

end Search
