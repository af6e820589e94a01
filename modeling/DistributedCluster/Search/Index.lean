import DistributedCluster.Executor.Types
import DistributedCluster.Search.Tokenizer
import DistributedCluster.Serde
import DistributedCluster.Storage.Sequential
/-!
# The index task

The `index_document` handler that `main.rs` registers. Its actions are whole
operations of the two maps it uses, each run without anything in between.
-/

namespace Search

open Async Executor

/-- The first argument is the node whose worker runs the task. -/
inductive IndexAct
  | datalake_get (n : NodeId) (book_id : String)
  | index_get (n : NodeId) (token : String)
  | index_put (n : NodeId) (token : String) (book_ids : List String)
  | iterate (n : NodeId) (set : List String)

abbrev IndexI : Interface where
  Act := IndexAct
  Ans
    | .datalake_get .. => Option RawDocument
    | .index_get .. => Option (List String)
    | .index_put .. => Result Unit
    | .iterate .. => List String

structure IndexState where
  datalake : MapCluster String RawDocument
  index_map : MapCluster String (List String)

variable [Serde]

/-- All maps share the partitioner and the addresses. -/
def IndexSem (cfg : MapConfig) (net : Network) : Sem IndexI IndexState
  | .datalake_get n book_id, s, x, s' =>
    ∃ d, Runs (MapSem cfg net) Eq (DistributedMap.get cfg n book_id) s.datalake x d ∧ s' = { s with datalake := d }
  | .index_get n token, s, x, s' =>
    ∃ m, Runs (MapSem cfg net) Eq (DistributedMap.get cfg n token) s.index_map x m ∧ s' = { s with index_map := m }
  | .index_put n token book_ids, s, r, s' =>
    ∃ m, Runs (MapSem cfg net) Eq (DistributedMap.put cfg n token book_ids) s.index_map r m ∧
      s' = { s with index_map := m }
  | .iterate _ set, s, x, s' => x.Perm set ∧ s' = s

section Program

abbrev IndexM := Async IndexI

def datalake_get (n : NodeId) (book_id : String) : IndexM (Option RawDocument) :=
  perform (I := IndexI) (.datalake_get n book_id)
def index_get (n : NodeId) (token : String) : IndexM (Option (List String)) := perform (I := IndexI) (.index_get n token)
def index_put (n : NodeId) (token : String) (book_ids : List String) : IndexM (Result Unit) :=
  perform (I := IndexI) (.index_put n token book_ids)
def iterate (n : NodeId) (set : List String) : IndexM (List String) := perform (I := IndexI) (.iterate n set)

/-- `if !book_ids.contains(book_id) { book_ids.push(book_id) }` -/
def push_book (book_id : String) (book_ids : List String) : List String :=
  if book_ids.contains book_id then book_ids else book_ids ++ [book_id]

/-- `for token in tokens`, ended by the first error. -/
def index_tokens (n : NodeId) (book_id : String) : List String → IndexM (Result Unit)
  | [] => pure (.ok ())
  | token :: tokens => do
    let book_ids := (← index_get n token).getD []
    match ← index_put n token (push_book book_id book_ids) with
    | .ok _ => index_tokens n book_id tokens
    | .error e => pure (.error e)

def index_document (unicode : Unicode) (n : NodeId) (task : Task) : IndexM (Result Unit) :=
  match task with
  | .Execute _ payload =>
    match JsonPayload.from_value (V := IndexTaskPayload) payload with
    | .error e => pure (.error (.anyhow e))
    | .ok payload => do
      match ← datalake_get n payload.book_id with
      | none => pure (.ok ())
      | some raw_doc => do
        let tokens ← iterate n (tokenize_text unicode raw_doc.body)
        index_tokens n payload.book_id tokens

/-- The task that ingestion submits for a book. -/
def index_task (book_id : String) : Task := .Execute "index_document" (JsonPayload.to_value (IndexTaskPayload.mk book_id))

end Program

omit [Serde] in
theorem mem_push_book (book_id : String) (book_ids : List String) : book_id ∈ push_book book_id book_ids := by
  unfold push_book
  split
  · rename_i h
    simpa using h
  · simp

omit [Serde] in
theorem subset_push_book (book_id : String) (book_ids : List String) : book_ids ⊆ push_book book_id book_ids := by
  unfold push_book
  split
  · exact List.Subset.refl _
  · exact List.subset_append_left _ _

omit [Serde] in
theorem mem_of_mem_push_book {book_id c : String} {book_ids : List String} (h : c ∈ push_book book_id book_ids)
    (hne : c ≠ book_id) : c ∈ book_ids := by
  unfold push_book at h
  split at h
  · exact h
  · simpa [hne] using h

/-- The posting list of a token, at the primary of the token. -/
def postings (cfg : MapConfig) (ring : NodeRing NodeId) (s : IndexState) (token : String) : List String :=
  ((cfg.owners ring (cfg.partition_of token)).head?.bind fun primary =>
    s.index_map.stored primary (cfg.partition_of token) token).getD []

/-! ## Running it -/

/-- What becomes of the requests of each operation. -/
abbrev Fates := IndexAct → NodeId → SocketAddr → Fate NodeId

/-- One way to answer every action. -/
def IndexInt (cfg : MapConfig) (fates : Fates) : (e : IndexAct) → IndexState → IndexI.Ans e × IndexState
  | .datalake_get n book_id, s =>
    let r := exec (MapInt (fates (.datalake_get n book_id))) (DistributedMap.get cfg n book_id) s.datalake
    (r.1, { s with datalake := r.2 })
  | .index_get n token, s =>
    let r := exec (MapInt (fates (.index_get n token))) (DistributedMap.get cfg n token) s.index_map
    (r.1, { s with index_map := r.2 })
  | .index_put n token book_ids, s =>
    let r := exec (MapInt (fates (.index_put n token book_ids))) (DistributedMap.put cfg n token book_ids) s.index_map
    (r.1, { s with index_map := r.2 })
  | .iterate _ set, s => (set, s)

theorem IndexInt_sem {cfg : MapConfig} {net : Network} {fates : Fates}
    (h : ∀ e n addr, net.allows (cfg.host n) addr (fates e n addr)) (e : IndexAct) (s : IndexState) :
    IndexSem cfg net e s (IndexInt cfg fates e s).1 (IndexInt cfg fates e s).2 := by
  cases e with
  | datalake_get n book_id => exact ⟨_, exec_runs (MapInt_sem (h _)) _ _, rfl⟩
  | index_get n token => exact ⟨_, exec_runs (MapInt_sem (h _)) _ _, rfl⟩
  | index_put n token book_ids => exact ⟨_, exec_runs (MapInt_sem (h _)) _ _, rfl⟩
  | iterate n set => exact ⟨.refl set, rfl⟩

theorem views_exec (cfg : MapConfig) (fates : Fates) {α : Type} (p : IndexM α) (s : IndexState) :
    (exec (IndexInt cfg fates) p s).2.datalake.view = s.datalake.view ∧
      (exec (IndexInt cfg fates) p s).2.index_map.view = s.index_map.view := by
  induction p generalizing s with
  | done a => exact ⟨rfl, rfl⟩
  | call e k ih =>
    have hact : (IndexInt cfg fates e s).2.datalake.view = s.datalake.view ∧
        (IndexInt cfg fates e s).2.index_map.view = s.index_map.view := by
      cases e with
      | datalake_get n book_id => exact ⟨view_exec _ _, rfl⟩
      | index_get n token => exact ⟨rfl, view_exec _ _⟩
      | index_put n token book_ids => exact ⟨rfl, view_exec _ _⟩
      | iterate n set => exact ⟨rfl, rfl⟩
    exact ⟨(ih _ _).1.trans hact.1, (ih _ _).2.trans hact.2⟩

theorem IndexSem_total (cfg : MapConfig) (net : Network) (e : IndexAct) (s : IndexState) :
    ∃ x s', IndexSem cfg net e s x s' :=
  have hanswered : ∀ (e : IndexAct) n addr, net.allows (cfg.host n) addr ((fun _ => answered cfg) e n addr) :=
    fun _ => allows_answered net
  ⟨_, _, IndexInt_sem hanswered e s⟩

end Search
