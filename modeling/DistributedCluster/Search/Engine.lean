import DistributedCluster.Lib.Paging
import DistributedCluster.Search.Tokenizer
import DistributedCluster.Serde
import DistributedCluster.Storage.Read
/-!
# The search engine

`search/engine.rs` and `handle_search` of `search/handlers.rs`. Its actions are
whole reads of the index and of the metadata, and the iteration of the map of
scores, in an order that nobody knows.
-/

namespace Search

open Async

structure SearchParams where
  q : String
  limit : Option Nat
  offset : Option Nat

structure SearchResultItem where
  book_id : String
  title : String
  author : String
  score : Nat
  deriving DecidableEq

structure SearchResponse where
  query : String
  filters : DashMap String String
  total_count : Nat
  count : Nat
  results : List SearchResultItem

inductive SearchAct
  | index_get (token : String)
  | books_get (book_id : String)
  | iterate (entries : List (String × Nat))

abbrev SearchI : Interface where
  Act := SearchAct
  Ans
    | .index_get _ => Option (List String)
    | .books_get _ => Option BookMetadata
    | .iterate _ => List (String × Nat)

section Program

abbrev SearchM := Async SearchI

def index_map_get (token : String) : SearchM (Option (List String)) := perform (I := SearchI) (.index_get token)
def books_map_get (book_id : String) : SearchM (Option BookMetadata) := perform (I := SearchI) (.books_get book_id)
def iterate_scores (book_scores : DashMap String Nat) : SearchM (List (String × Nat)) :=
  perform (I := SearchI) (.iterate book_scores.iter)

/-- `and_modify(|score| *score += 1).or_insert(1)` -/
def add_score (book_scores : DashMap String Nat) (book_id : String) : DashMap String Nat :=
  match book_scores.lookup book_id with
  | some score => book_scores.insert book_id (score + 1)
  | none => book_scores.insert book_id 1

def score_tokens (book_scores : DashMap String Nat) : List String → SearchM (DashMap String Nat)
  | [] => pure book_scores
  | token :: tokens => do
    match ← index_map_get token with
    | some book_index => score_tokens (book_index.foldl add_score book_scores) tokens
    | none => score_tokens book_scores tokens

def hydrate : List (String × Nat) → SearchM (List (BookMetadata × Nat))
  | [] => pure []
  | (book_id, score) :: book_scores => do
    match ← books_map_get book_id with
    | some metadata => do
      let results ← hydrate book_scores
      pure ((metadata, score) :: results)
    | none => hydrate book_scores

/-- `results.sort_by(|a, b| b.1.cmp(&a.1))`, a stable sort. -/
def rank (results : List (BookMetadata × Nat)) : List (BookMetadata × Nat) := results.mergeSort fun a b => b.2 ≤ a.2

def search (unicode : Unicode) (query : String) : SearchM (List (BookMetadata × Nat)) := do
  let book_scores ← score_tokens ∅ (tokenize_query unicode query)
  let results ← hydrate (← iterate_scores book_scores)
  pure (rank results)

def result_item (result : BookMetadata × Nat) : SearchResultItem :=
  ⟨result.1.book_id, result.1.title, result.1.author, result.2⟩

/-- The pagination of `handle_search`. -/
def paginate (params : SearchParams) (results : List SearchResultItem) : SearchResponse :=
  let limit := params.limit.getD 10
  let offset := params.offset.getD 0
  let total_count := results.length
  let results := (results.drop offset).take limit
  ⟨params.q, ∅, total_count, results.length, results⟩

def handle_search (unicode : Unicode) (params : SearchParams) : SearchM SearchResponse := do
  let results := (← search unicode params.q).map result_item
  pure (paginate params results)

end Program

/-! ## Two readings -/

section Readings

variable [Serde]

structure SearchState where
  index_map : MapCluster String (List String)
  books_map : MapCluster String BookMetadata

/-- The search at node `n` of a cluster. -/
def SearchSem (cfg : MapConfig) (net : Network) (n : NodeId) : Sem SearchI SearchState
  | .index_get token, s, x, s' =>
    ∃ m, Runs (MapSem cfg net) Eq (DistributedMap.get cfg n token) s.index_map x m ∧ s' = { s with index_map := m }
  | .books_get book_id, s, x, s' =>
    ∃ m, Runs (MapSem cfg net) Eq (DistributedMap.get cfg n book_id) s.books_map x m ∧ s' = { s with books_map := m }
  | .iterate entries, s, x, s' => x.Perm entries ∧ s' = s

/-- The search over an index and a metadata store that do not change. -/
def StoreSem (index : String → Option (List String)) (books : String → Option BookMetadata) : Sem SearchI Unit
  | .index_get token, _, x, _ => x = index token
  | .books_get book_id, _, x, _ => x = books book_id
  | .iterate entries, _, x, _ => x.Perm entries

/-- What every read finds in the states with `I`, a search finds in such stores. -/
theorem runs_store_of {α : Type} {cfg : MapConfig} {net : Network} {n : NodeId} {I : SearchState → Prop}
    {index : String → Option (List String)} {books : String → Option BookMetadata}
    (hindex : ∀ s token x m, I s → Runs (MapSem cfg net) Eq (DistributedMap.get cfg n token) s.index_map x m →
      x = index token ∧ I { s with index_map := m })
    (hbooks : ∀ s book_id x m, I s → Runs (MapSem cfg net) Eq (DistributedMap.get cfg n book_id) s.books_map x m →
      x = books book_id ∧ I { s with books_map := m })
    {s s' : SearchState} {p : SearchM α} {a : α} (h : Runs (SearchSem cfg net n) Eq p s a s') (hs : I s) :
    Runs (StoreSem index books) Eq p () a () ∧ I s' := by
  induction h with
  | done h =>
    subst h
    exact ⟨.done rfl, hs⟩
  | @call e k s s₁ x s₂ a s' heq hact hrun ih =>
    subst heq
    cases e with
    | index_get token =>
      obtain ⟨m, hget, rfl⟩ := hact
      obtain ⟨rfl, hI⟩ := hindex s token x m hs hget
      exact ⟨runs_call.2 ⟨(), _, (), rfl, rfl, (ih hI).1⟩, (ih hI).2⟩
    | books_get book_id =>
      obtain ⟨m, hget, rfl⟩ := hact
      obtain ⟨rfl, hI⟩ := hbooks s book_id x m hs hget
      exact ⟨runs_call.2 ⟨(), _, (), rfl, rfl, (ih hI).1⟩, (ih hI).2⟩
    | iterate entries =>
      obtain ⟨hperm, rfl⟩ := hact
      exact ⟨runs_call.2 ⟨(), _, (), rfl, hperm, (ih hs).1⟩, (ih hs).2⟩

end Readings

/-! ## What is found -/

variable (index : String → Option (List String)) (books : String → Option BookMetadata) (tokens : List String)

/-- How often a book is listed for the tokens. -/
def score (book_id : String) : Nat := (tokens.map fun token => ((index token).getD []).count book_id).sum

/-- The books listed for some token. -/
def listed : List String := (tokens.flatMap fun token => (index token).getD []).dedup

/-- The books that a query matches, with their scores. -/
def matching : List SearchResultItem :=
  (listed index tokens).filterMap fun book_id => (books book_id).map fun m => result_item (m, score index tokens book_id)

variable {index books tokens}

/-- `book_scores` holds the numbers of `f`, and no zeros. -/
def Counts (book_scores : DashMap String Nat) (f : String → Nat) : Prop :=
  ∀ book_id, book_scores.lookup book_id = if f book_id = 0 then none else some (f book_id)

theorem Counts.congr {book_scores : DashMap String Nat} {f g : String → Nat} (h : Counts book_scores f)
    (hfg : ∀ b, f b = g b) : Counts book_scores g := funext hfg ▸ h

theorem counts_add_score {book_scores : DashMap String Nat} {f : String → Nat} (h : Counts book_scores f) (book_id : String) :
    Counts (add_score book_scores book_id) fun b => f b + if b = book_id then 1 else 0 := by
  intro b
  have hadd : add_score book_scores book_id = book_scores.insert book_id (f book_id + 1) := by
    unfold add_score
    rw [h book_id]
    by_cases hf : f book_id = 0
    · rw [if_pos hf, hf]
    · rw [if_neg hf]
  rw [hadd, DashMap.lookup_insert_eq]
  by_cases hb : b = book_id
  · subst hb
    simp
  · simpa [hb] using h b

theorem counts_foldl {book_scores : DashMap String Nat} {f : String → Nat} (h : Counts book_scores f)
    (book_index : List String) :
    Counts (book_index.foldl add_score book_scores) fun b => f b + book_index.count b := by
  induction book_index generalizing book_scores f with
  | nil => exact h
  | cons book_id book_index ih =>
    refine (ih (counts_add_score h book_id)).congr fun b => ?_
    rw [List.count_cons]
    simp only [beq_iff_eq, eq_comm (a := b)]
    omega

/-- The scores after all tokens. -/
def book_scores (index : String → Option (List String)) (tokens : List String) : DashMap String Nat :=
  tokens.foldl (fun m token => ((index token).getD []).foldl add_score m) ∅

theorem counts_book_scores : Counts (book_scores index tokens) (score index tokens) := by
  have key : ∀ tokens (m : DashMap String Nat) f, Counts m f →
      Counts (tokens.foldl (fun m token => ((index token).getD []).foldl add_score m) m) fun b => f b + score index tokens b := by
    intro tokens
    induction tokens with
    | nil => exact fun m f h => h
    | cons token tokens ih =>
      intro m f h
      refine (ih _ _ (counts_foldl h ((index token).getD []))).congr fun b => ?_
      simp only [score, List.map_cons, List.sum_cons, Nat.add_assoc]
  exact (key tokens ∅ (fun _ => 0) fun _ => rfl).congr fun _ => Nat.zero_add _

theorem score_ne_zero {book_id : String} : score index tokens book_id ≠ 0 ↔ book_id ∈ listed index tokens := by
  rw [listed, List.mem_dedup, List.mem_flatMap, score, ← Nat.pos_iff_ne_zero, List.sum_pos_iff_exists_pos_nat]
  simp only [List.mem_map, exists_exists_and_eq_and, List.count_pos_iff]

/-- The map of scores lists exactly the listed books. -/
theorem book_scores_iter : (book_scores index tokens).iter.Perm
    ((listed index tokens).map fun book_id => (book_id, score index tokens book_id)) := by
  refine (List.perm_ext_iff_of_nodup ((book_scores index tokens).iter_keys_nodup.of_map _) ?_).2 fun e => ?_
  · exact (List.nodup_dedup _).map fun a b h => congrArg Prod.fst h
  · obtain ⟨book_id, n⟩ := e
    rw [DashMap.mem_iter, counts_book_scores book_id]
    simp only [List.mem_map, Prod.mk.injEq, ← score_ne_zero]
    split
    · rename_i h
      simp only [reduceCtorEq, false_iff, not_exists, not_and]
      rintro b hb rfl
      exact absurd h hb
    · rename_i h
      constructor
      · exact fun hn => ⟨book_id, h, rfl, Option.some.inj hn⟩
      · rintro ⟨b, -, rfl, rfl⟩
        rfl

/-! ## What a search may answer -/

section Answers

variable {unicode : Unicode} {query : String}

theorem runs_index_map_get {α : Type} {token : String} {f : Option (List String) → SearchM α} {r : α} :
    Runs (StoreSem index books) Eq (index_map_get token >>= f) () r () ↔
      Runs (StoreSem index books) Eq (f (index token)) () r () := by
  rw [runs_bind]
  constructor
  · rintro ⟨x, _, hget, hrest⟩
    obtain rfl : x = index token := runs_perform.1 hget
    exact hrest
  · exact fun h => ⟨_, (), runs_perform.2 rfl, h⟩

theorem runs_books_map_get {α : Type} {book_id : String} {f : Option BookMetadata → SearchM α} {r : α} :
    Runs (StoreSem index books) Eq (books_map_get book_id >>= f) () r () ↔
      Runs (StoreSem index books) Eq (f (books book_id)) () r () := by
  rw [runs_bind]
  constructor
  · rintro ⟨x, _, hget, hrest⟩
    obtain rfl : x = books book_id := runs_perform.1 hget
    exact hrest
  · exact fun h => ⟨_, (), runs_perform.2 rfl, h⟩

theorem runs_score_tokens {m r : DashMap String Nat} : Runs (StoreSem index books) Eq (score_tokens m tokens) () r () ↔
    r = tokens.foldl (fun m token => ((index token).getD []).foldl add_score m) m := by
  induction tokens generalizing m with
  | nil => simp [score_tokens]
  | cons token tokens ih =>
    rw [score_tokens, runs_index_map_get, List.foldl_cons]
    cases index token with
    | none => exact ih
    | some book_index => exact ih

/-- The metadata of the books in the order of the iteration. -/
def hydrated (books : String → Option BookMetadata) (order : List (String × Nat)) : List (BookMetadata × Nat) :=
  order.filterMap fun e => (books e.1).map fun metadata => (metadata, e.2)

theorem runs_hydrate {order : List (String × Nat)} {r : List (BookMetadata × Nat)} :
    Runs (StoreSem index books) Eq (hydrate order) () r () ↔ r = hydrated books order := by
  induction order generalizing r with
  | nil => simp [hydrate, hydrated]
  | cons e order ih =>
    obtain ⟨book_id, n⟩ := e
    rw [hydrate, runs_books_map_get]
    cases hfound : books book_id with
    | none => simpa [hydrated, hfound] using ih
    | some metadata =>
      rw [hydrated, List.filterMap_cons_some (b := (metadata, n)) (by simp [hfound]), ← hydrated]
      rw [runs_bind]
      constructor
      · rintro ⟨results, _, hrest, hdone⟩
        rw [ih.1 hrest] at hdone
        exact (runs_pure.1 hdone).1
      · exact fun h => ⟨_, (), ih.2 rfl, runs_pure.2 ⟨h, rfl⟩⟩

/-- What a request answers depends on the iteration order alone. -/
theorem runs_search {r : List (BookMetadata × Nat)} : Runs (StoreSem index books) Eq (search unicode query) () r () ↔
    ∃ order, order.Perm (book_scores index (tokenize_query unicode query)).iter ∧ r = rank (hydrated books order) := by
  unfold search
  rw [runs_bind]
  constructor
  · rintro ⟨m, _, hscores, hrest⟩
    obtain rfl := runs_score_tokens.1 hscores
    obtain ⟨order, _, hiterate, hrest⟩ := runs_bind.1 hrest
    obtain ⟨results, _, hhydrate, hrank⟩ := runs_bind.1 hrest
    obtain rfl := runs_hydrate.1 hhydrate
    obtain ⟨rfl, -⟩ := runs_pure.1 hrank
    exact ⟨order, runs_perform.1 hiterate, rfl⟩
  · rintro ⟨order, hperm, rfl⟩
    refine ⟨_, (), runs_score_tokens.2 rfl, runs_bind.2 ⟨order, (), runs_perform.2 hperm, ?_⟩⟩
    exact runs_bind.2 ⟨_, (), runs_hydrate.2 rfl, runs_pure.2 ⟨rfl, rfl⟩⟩

theorem matching_perm :
    ((hydrated books (book_scores index tokens).iter).map result_item).Perm (matching index books tokens) := by
  have hiter : (book_scores index tokens).iter.Perm
    ((listed index tokens).map fun book_id => (book_id, score index tokens book_id)) := book_scores_iter
  have h := hiter.filterMap fun e => (books e.1).map fun metadata => result_item (metadata, e.2)
  rw [List.filterMap_map] at h
  rw [hydrated, List.map_filterMap]
  simpa [Function.comp_def, matching] using h

theorem rank_sorted (results : List (BookMetadata × Nat)) : (rank results).Pairwise fun a b => b.2 ≤ a.2 := by
  have h : (rank results).Pairwise fun a b => decide (b.2 ≤ a.2) := List.pairwise_mergeSort
    (fun a b c hab hbc => by simp only [decide_eq_true_eq] at *; omega)
    (fun a b => by simp only [Bool.or_eq_true, decide_eq_true_eq]; omega) results
  exact h.imp fun hab => by simpa using hab

/-- Every ranking of the matching books may be answered, and nothing else. -/
theorem runs_handle_search {limit offset : Option Nat} {r : SearchResponse} :
    Runs (StoreSem index books) Eq (handle_search unicode ⟨query, limit, offset⟩) () r () ↔
      ∃ ranking, Paging.Ranking SearchResultItem.score (matching index books (tokenize_query unicode query)) ranking ∧
        r = paginate ⟨query, limit, offset⟩ ranking := by
  unfold handle_search
  rw [runs_bind]
  constructor
  · rintro ⟨results, _, hsearch, hdone⟩
    obtain ⟨order, hperm, rfl⟩ := runs_search.1 hsearch
    refine ⟨_, ⟨?_, ?_⟩, (runs_pure.1 hdone).1⟩
    · exact (((List.mergeSort_perm _ _).trans (hperm.filterMap _)).map _).trans matching_perm
    · exact List.pairwise_map.2 (rank_sorted _)
  · rintro ⟨ranking, hranking, rfl⟩
    have hitems := hranking.perm.trans matching_perm.symm
    rw [hydrated, List.map_filterMap] at hitems
    obtain ⟨order, hperm, horder⟩ := Paging.exists_perm_filterMap _ hitems
    refine ⟨_, (), runs_search.2 ⟨order, hperm, rfl⟩, runs_pure.2 ⟨?_, rfl⟩⟩
    have hsame : (hydrated books order).map result_item = ranking := by rw [hydrated, List.map_filterMap, horder]
    rw [rank, List.mergeSort_of_pairwise, hsame]
    have hsorted := hranking.sorted
    rw [← hsame, List.pairwise_map] at hsorted
    exact hsorted.imp fun h => decide_eq_true h

end Answers

/-! ## Page after page -/

/-- The results of one request after the other, from the first page on. -/
def all_pages (limit : Nat) (responses : Nat → SearchResponse) : List SearchResultItem :=
  (List.range ((responses 0).total_count / limit + 1)).flatMap fun k => (responses k).results

/-- Each page is answered by a request of its own. -/
def Paged (unicode : Unicode) (index : String → Option (List String)) (books : String → Option BookMetadata) (query : String)
    (limit : Nat) (responses : Nat → SearchResponse) : Prop :=
  ∀ k, Runs (StoreSem index books) Eq (handle_search unicode ⟨query, some limit, some (k * limit)⟩) () (responses k) ()

theorem all_pages_eq {items : List SearchResultItem} {query : String} {limit : Nat} {rankings : Nat → List SearchResultItem}
    {responses : Nat → SearchResponse} (h : ∀ k, Paging.Ranking SearchResultItem.score items (rankings k))
    (hresponses : ∀ k, responses k = paginate ⟨query, some limit, some (k * limit)⟩ (rankings k)) :
    all_pages limit responses = Paging.pages limit items.length rankings := by
  have htotal : (responses 0).total_count = items.length := by
    rw [hresponses 0]
    exact (h 0).perm.length_eq
  rw [all_pages, htotal, Paging.pages]
  exact List.flatMap_congr fun k _ => by rw [hresponses k]; rfl

theorem clean_of_all_pages {unicode : Unicode} {query : String} {limit : Nat} (hlimit : 0 < limit)
    (h : ∀ responses, Paged unicode index books query limit responses →
      (all_pages limit responses).Perm (matching index books (tokenize_query unicode query))) (k : Nat) :
    Paging.Clean SearchResultItem.score (matching index books (tokenize_query unicode query)) (k * limit) := by
  refine Paging.clean_of_pages hlimit (fun rankings hrankings => ?_) k
  have hpaged : Paged unicode index books query limit fun k =>
      paginate ⟨query, some limit, some (k * limit)⟩ (rankings k) :=
    fun k => runs_handle_search.2 ⟨rankings k, hrankings k, rfl⟩
  have hpages := h _ hpaged
  rwa [all_pages_eq hrankings fun _ => rfl] at hpages

/-- The scores of page after page never rise; every matching book is there once, whatever
the orders of iteration, exactly if no page ends between two different books of one score. -/
theorem all_pages_iff (unicode : Unicode) (index : String → Option (List String)) (books : String → Option BookMetadata)
    (query : String) (limit : Nat) (hlimit : 0 < limit) :
    (∀ responses, Paged unicode index books query limit responses →
      (all_pages limit responses).Perm (matching index books (tokenize_query unicode query)) ∧
      (all_pages limit responses).Pairwise fun a b => b.score ≤ a.score) ↔
    ∀ k, Paging.Clean SearchResultItem.score (matching index books (tokenize_query unicode query)) (k * limit) := by
  constructor
  · exact fun h => clean_of_all_pages hlimit fun responses hpaged => (h responses hpaged).1
  · intro hclean responses hpaged
    choose rankings hrankings using fun k => runs_handle_search.1 (hpaged k)
    rw [all_pages_eq (fun k => (hrankings k).1) fun k => (hrankings k).2]
    exact ⟨Paging.pages_perm hlimit (fun k => (hrankings k).1) hclean, Paging.pages_sorted hlimit fun k => (hrankings k).1⟩

section Example

def rust_index (token : String) : Option (List String) := if token = "rust" then some ["1", "2"] else none

def rust_books (book_id : String) : Option BookMetadata := some ⟨book_id, "", "", "en", none, 0, 0⟩

theorem matching_rust :
    matching rust_index rust_books (tokenize_query .ascii "rust") = [⟨"1", "", "", 1⟩, ⟨"2", "", "", 1⟩] := by decide

/-- Both books fit one page. -/
theorem all_pages_rust : ∃ responses, Paged .ascii rust_index rust_books "rust" 2 responses ∧
    (all_pages 2 responses).Perm (matching rust_index rust_books (tokenize_query .ascii "rust")) := by
  have hclean : ∀ k,
      Paging.Clean SearchResultItem.score (matching rust_index rust_books (tokenize_query .ascii "rust")) (k * 2) := by
    rw [matching_rust]
    intro k x _ y _ _ hlow hhigh
    have hlength := hhigh.trans_le List.countP_le_length
    simp only [List.length_cons, List.length_nil] at hlength
    omega
  have hranking : Paging.Ranking SearchResultItem.score (matching rust_index rust_books (tokenize_query .ascii "rust"))
      (matching rust_index rust_books (tokenize_query .ascii "rust")) := ⟨.refl _, by rw [matching_rust]; decide⟩
  have hpaged : Paged .ascii rust_index rust_books "rust" 2 fun k =>
      paginate ⟨"rust", some 2, some (k * 2)⟩ (matching rust_index rust_books (tokenize_query .ascii "rust")) :=
    fun k => runs_handle_search.2 ⟨_, hranking, rfl⟩
  exact ⟨_, hpaged, ((all_pages_iff .ascii rust_index rust_books "rust" 2 (by decide)).2 hclean _ hpaged).1⟩

/-- On pages of one book each, the second request may answer with the book of the first. -/
theorem book_on_both_pages :
    ¬ ∀ (unicode : Unicode) (index : String → Option (List String)) (books : String → Option BookMetadata) (query : String)
      (limit : Nat), 0 < limit → ∀ responses, Paged unicode index books query limit responses →
        (all_pages limit responses).Perm (matching index books (tokenize_query unicode query)) ∧
        (all_pages limit responses).Pairwise fun a b => b.score ≤ a.score := by
  intro h
  have hclean := clean_of_all_pages (by decide)
    (fun responses hpaged => (h .ascii rust_index rust_books "rust" 1 (by decide) responses hpaged).1) 1
  rw [matching_rust] at hclean
  have hsame := hclean ⟨"1", "", "", 1⟩ (by decide) ⟨"2", "", "", 1⟩ (by decide) rfl (by decide) (by decide)
  exact absurd hsame (by decide)

end Example

end Search
