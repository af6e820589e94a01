import DistributedCluster.Search.Retention
import DistributedCluster.Storage.Single
/-!
# The index of one node

On a node alone, index tasks run one after the other. Then the posting list of
a token has each document with the token once, and nothing else.
-/

namespace Search

open Async Executor DistributedMap

section

variable [Serde]

/-- Index tasks for these books, executed at node `n` one after the other. -/
inductive Executed (cfg : MapConfig) (net : Network) (unicode : Unicode) (n : NodeId) :
    IndexState → List String → IndexState → Prop
  | nil (s) : Executed cfg net unicode n s [] s
  | snoc {s books s₁ r s₂} (book_id : String) : Executed cfg net unicode n s books s₁ →
      Runs (IndexSem cfg net) Eq (index_document unicode n (index_task book_id)) s₁ r s₂ →
      Executed cfg net unicode n s (books ++ [book_id]) s₂

/-- The node has the document of a book, and it has the token. -/
def HasToken (cfg : MapConfig) (unicode : Unicode) (n : NodeId) (datalake : MapCluster String RawDocument)
    (token book_id : String) : Prop :=
  ∃ doc, datalake.stored n (cfg.partition_of book_id) book_id = some doc ∧ token ∈ tokenize_text unicode doc.body

variable {cfg : MapConfig} {net : Network} {unicode : Unicode} {n : NodeId} {s s' : IndexState} {book_id : String}

/-- The node is alone, for both maps. -/
def Solo (n : NodeId) (s : IndexState) : Prop := Single n s.datalake ∧ Single n s.index_map

omit [Serde] in
theorem postings_single (token : String) : postings cfg (single n) s token = local_ids cfg n s token := by
  rw [postings, owners_single]
  rfl

theorem index_get_single (hsolo : Solo n s) {token : String} {x : Option (List String)}
    (h : IndexSem cfg net (.index_get n token) s x s') : x.getD [] = local_ids cfg n s token ∧ s' = s := by
  obtain ⟨m, hget, rfl⟩ := h
  obtain ⟨rfl, rfl⟩ := get_single hsolo.2 hget
  exact ⟨rfl, rfl⟩

theorem index_put_single (hsolo : Solo n s) {token : String} {book_ids : List String} {r : Result Unit}
    (h : IndexSem cfg net (.index_put n token book_ids) s r s') :
    r = .ok () ∧ Solo n s' ∧ s'.datalake = s.datalake ∧
      ∀ t, local_ids cfg n s' t = if t = token then book_ids else local_ids cfg n s t := by
  obtain ⟨m, hput, rfl⟩ := h
  obtain ⟨rfl, hview, hstored⟩ := put_single hsolo.2 hput
  refine ⟨rfl, ⟨hsolo.1, ?_⟩, rfl, fun t => ?_⟩
  · have h := hsolo.2
    unfold Single at h ⊢
    dsimp only
    rw [hview]
    exact h
  · rw [local_ids, hstored, local_ids]
    split <;> rfl

/-- The lists of the tokens get the book, the others stay. -/
theorem index_tokens_single {tokens : List String} (hsolo : Solo n s) (hnd : tokens.Nodup) {r : Result Unit}
    (hrun : Runs (IndexSem cfg net) Eq (index_tokens n book_id tokens) s r s') :
    Solo n s' ∧ s'.datalake = s.datalake ∧ ∀ token, local_ids cfg n s' token =
      if token ∈ tokens then push_book book_id (local_ids cfg n s token) else local_ids cfg n s token := by
  induction tokens generalizing s with
  | nil =>
    obtain ⟨-, rfl⟩ := runs_pure.1 hrun
    exact ⟨hsolo, rfl, fun _ => rfl⟩
  | cons token tokens ih =>
    obtain ⟨hnew, hnd⟩ := List.nodup_cons.1 hnd
    obtain ⟨x, s₁, r₁, s₂, hget, hput, hrest⟩ := runs_index_tokens_cons.1 hrun
    obtain ⟨hx, rfl⟩ := index_get_single hsolo hget
    obtain ⟨rfl, hsolo₂, hdatalake, hlists⟩ := index_put_single hsolo hput
    obtain ⟨hsolo', hdatalake', hlists'⟩ := ih hsolo₂ hnd hrest
    refine ⟨hsolo', hdatalake'.trans hdatalake, fun t => ?_⟩
    rw [hlists', hlists, hx]
    by_cases ht : t = token
    · subst ht
      simp [hnew]
    · simp [ht]

/-- What one task does. -/
theorem index_document_single (hsolo : Solo n s) {r : Result Unit}
    (hrun : Runs (IndexSem cfg net) Eq (index_document unicode n (index_task book_id)) s r s') :
    Solo n s' ∧ s'.datalake = s.datalake ∧
      ∀ token, (HasToken cfg unicode n s.datalake token book_id →
          local_ids cfg n s' token = push_book book_id (local_ids cfg n s token)) ∧
        (¬ HasToken cfg unicode n s.datalake token book_id → local_ids cfg n s' token = local_ids cfg n s token) := by
  obtain ⟨x, s₁, ⟨d, hget, rfl⟩, hrest⟩ := (runs_index_document (JsonPayload.from_value_to_value (IndexTaskPayload.mk book_id)) _).1 hrun
  obtain ⟨rfl, rfl⟩ := get_single hsolo.1 hget
  cases hdoc : s.datalake.stored n (cfg.partition_of book_id) book_id with
  | none =>
    rw [hdoc] at hrest
    obtain ⟨-, rfl⟩ := hrest
    refine ⟨hsolo, rfl, fun token => ⟨fun hmem => ?_, fun _ => rfl⟩⟩
    obtain ⟨doc, hsome, -⟩ := hmem
    rw [hdoc] at hsome
    cases hsome
  | some doc =>
    rw [hdoc] at hrest
    obtain ⟨tokens, hperm, htokens⟩ := hrest
    have hnd : tokens.Nodup := hperm.nodup_iff.2 (tokenize_text_nodup unicode doc.body)
    obtain ⟨hsolo', hdatalake, hlists⟩ := index_tokens_single hsolo hnd htokens
    refine ⟨hsolo', hdatalake, fun token => ?_⟩
    have hhas : HasToken cfg unicode n s.datalake token book_id ↔ token ∈ tokens := by
      rw [hperm.mem_iff]
      simp [HasToken, hdoc]
    rw [hlists, hhas]
    exact ⟨fun h => if_pos h, fun h => if_neg h⟩

omit [Serde] in
theorem push_book_nodup {book_ids : List String} (h : book_ids.Nodup) : (push_book book_id book_ids).Nodup := by
  unfold push_book
  split
  · exact h
  · rename_i hnew
    simpa [List.nodup_append] using ⟨h, fun b hb he => hnew (by simpa [← he] using hb)⟩

omit [Serde] in
theorem mem_push_book_iff {book_ids : List String} {c : String} :
    c ∈ push_book book_id book_ids ↔ c ∈ book_ids ∨ c = book_id := by
  unfold push_book
  split
  · rename_i hmem
    rw [List.contains_iff_mem] at hmem
    exact ⟨.inl, fun h => h.elim id fun he => he ▸ hmem⟩
  · simp

/-- The list of the token is exact for the tasks executed so far. -/
structure Exact (cfg : MapConfig) (unicode : Unicode) (n : NodeId) (datalake : MapCluster String RawDocument)
    (books : List String) (s : IndexState) : Prop where
  solo : Solo n s
  datalake_eq : s.datalake = datalake
  nodup : ∀ token, (local_ids cfg n s token).Nodup
  mem : ∀ token book_id, book_id ∈ local_ids cfg n s token ↔ book_id ∈ books ∧ HasToken cfg unicode n datalake token book_id

theorem exact_of_executed {books : List String} (hsolo : Solo n s) (hempty : ∀ token, local_ids cfg n s token = [])
    (h : Executed cfg net unicode n s books s') : Exact cfg unicode n s.datalake books s' := by
  induction h with
  | nil =>
    refine ⟨hsolo, rfl, fun token => ?_, fun token book_id => ?_⟩
    · rw [hempty token]
      exact List.nodup_nil
    · simp [hempty token]
  | @snoc books s₁ r s₂ book_id _ hrun ih =>
    have hexact := ih
    obtain ⟨hsolo', hdatalake, hlists⟩ := index_document_single hexact.solo hrun
    rw [hexact.datalake_eq] at hdatalake hlists
    refine ⟨hsolo', hdatalake, fun token => ?_, fun token c => ?_⟩
    · by_cases hhas : HasToken cfg unicode n s.datalake token book_id
      · rw [(hlists token).1 hhas]
        exact push_book_nodup (hexact.nodup token)
      · rw [(hlists token).2 hhas]
        exact hexact.nodup token
    · by_cases hhas : HasToken cfg unicode n s.datalake token book_id
      · rw [(hlists token).1 hhas, mem_push_book_iff, hexact.mem, List.mem_append, List.mem_singleton]
        constructor
        · rintro (⟨hbooks, hc⟩ | rfl)
          · exact ⟨.inl hbooks, hc⟩
          · exact ⟨.inr rfl, hhas⟩
        · rintro ⟨hbooks | rfl, hc⟩
          · exact .inl ⟨hbooks, hc⟩
          · exact .inr rfl
      · rw [(hlists token).2 hhas, hexact.mem, List.mem_append, List.mem_singleton]
        constructor
        · rintro ⟨hbooks, hc⟩
          exact ⟨.inl hbooks, hc⟩
        · rintro ⟨hbooks | rfl, hc⟩
          · exact ⟨hbooks, hc⟩
          · exact absurd hc hhas

/-- After any tasks, one after the other, the posting list of a token has the executed
documents with the token, each once. -/
theorem index_exact (cfg : MapConfig) (net : Network) (unicode : Unicode) (n : NodeId) (s s' : IndexState)
    (books : List String) (hsolo : Solo n s) (hempty : ∀ token, local_ids cfg n s token = [])
    (h : Executed cfg net unicode n s books s') (token : String) :
    (postings cfg (single n) s' token).Nodup ∧
      ∀ book_id, book_id ∈ postings cfg (single n) s' token ↔
        book_id ∈ books ∧ HasToken cfg unicode n s.datalake token book_id := by
  have hexact := exact_of_executed hsolo hempty h
  rw [postings_single]
  exact ⟨hexact.nodup token, hexact.mem token⟩

end

section Example

open CompactJson

def solo_cfg : MapConfig := demo_cfg (single node_a) 2

/-- A node alone with one document. -/
def solo_library : Result Unit × MapCluster String RawDocument :=
  exec (MapInt (answered solo_cfg)) (put solo_cfg node_a "x" (document "x" "abc")) (MapCluster.empty (demo_view (single node_a)))

def solo_unindexed : IndexState := ⟨solo_library.2, MapCluster.empty (demo_view (single node_a))⟩

/-- Its task, one for a document that is not there, and its task again. -/
theorem index_exact_solo : ∃ s', Executed solo_cfg .reliable .ascii node_a solo_unindexed ["x", "z", "x"] s' ∧
    (postings solo_cfg (single node_a) s' "abc").Nodup ∧
      ∀ book_id, book_id ∈ postings solo_cfg (single node_a) s' "abc" ↔
        book_id ∈ ["x", "z", "x"] ∧ HasToken solo_cfg .ascii node_a solo_unindexed.datalake "abc" book_id := by
  have hview : ∀ s : MapCluster String RawDocument, (exec (MapInt (answered solo_cfg))
      (put solo_cfg node_a "x" (document "x" "abc")) s).2.view = s.view := view_exec _
  have hsolo : Solo node_a solo_unindexed := by
    refine ⟨?_, PartitionManager.holdsAlive_settled ..⟩
    rw [Single, solo_unindexed, solo_library, hview]
    exact PartitionManager.holdsAlive_settled ..
  obtain ⟨_, s₁, h₁⟩ := Runs.total (R := Eq) (IndexSem_total solo_cfg .reliable)
    (index_document .ascii node_a (index_task "x")) solo_unindexed
  obtain ⟨_, s₂, h₂⟩ := Runs.total (R := Eq) (IndexSem_total solo_cfg .reliable)
    (index_document .ascii node_a (index_task "z")) s₁
  obtain ⟨_, s₃, h₃⟩ := Runs.total (R := Eq) (IndexSem_total solo_cfg .reliable)
    (index_document .ascii node_a (index_task "x")) s₂
  have hexecuted : Executed solo_cfg .reliable .ascii node_a solo_unindexed ["x", "z", "x"] s₃ :=
    .snoc "x" (.snoc "z" (.snoc "x" (.nil _) h₁) h₂) h₃
  exact ⟨s₃, hexecuted, index_exact _ _ _ _ _ _ _ hsolo (fun _ => rfl) hexecuted "abc"⟩

end Example

end Search
