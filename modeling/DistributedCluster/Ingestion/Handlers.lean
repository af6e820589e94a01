import DistributedCluster.Executor.Queue
import DistributedCluster.Ingestion.Gutenberg
import DistributedCluster.Search.Index
/-!
# Ingestion

`ingestion/handlers.rs`. The actions of a handler are whole operations of the two
maps and the queue, each run without anything in between, the download and the
lines of the log.
-/

namespace Ingestion

open Async Executor

/-- A line of the log; `err` is what it ends with. -/
structure LogLine where
  message : String
  err : Option Error
  deriving DecidableEq

/-- The first argument is the node that handles the request. -/
inductive IngestAct
  | datalake_get (n : NodeId) (book_id : String)
  | datalake_put (n : NodeId) (book_id : String) (raw_doc : RawDocument)
  | books_put (n : NodeId) (book_id : String) (metadata : BookMetadata)
  | submit (n : NodeId) (task : Task)
  | fetch (n : NodeId) (url : String)
  | log (n : NodeId) (line : LogLine)

abbrev IngestI : Interface where
  Act := IngestAct
  Ans
    | .datalake_get .. => Option RawDocument
    | .datalake_put .. | .books_put .. => Result Unit
    | .submit .. => Result TaskId
    | .fetch .. => Result String
    | .log .. => Unit

structure IngestState where
  datalake : MapCluster String RawDocument
  books : MapCluster String BookMetadata
  queue : QueueCluster
  log : List LogLine

variable [Serde]

/-- The other server may send any text, or none. -/
def IngestSem (cfg : MapConfig) (net : Network) : Sem IngestI IngestState
  | .datalake_get n book_id, s, x, s' =>
    ∃ d, Runs (MapSem cfg net) Eq (DistributedMap.get cfg n book_id) s.datalake x d ∧ s' = { s with datalake := d }
  | .datalake_put n book_id raw_doc, s, r, s' =>
    ∃ d, Runs (MapSem cfg net) Eq (DistributedMap.put cfg n book_id raw_doc) s.datalake r d ∧ s' = { s with datalake := d }
  | .books_put n book_id metadata, s, r, s' =>
    ∃ b, Runs (MapSem cfg net) Eq (DistributedMap.put cfg n book_id metadata) s.books r b ∧ s' = { s with books := b }
  | .submit n task, s, r, s' =>
    ∃ q, Runs (QueueSem cfg net) Eq (Executor.submit cfg n task) s.queue r q ∧ s' = { s with queue := q }
  | .fetch _ _, s, _, s' => s' = s
  | .log _ line, s, _, s' => s' = { s with log := s.log ++ [line] }

abbrev IngestM := Async IngestI

section Program

def datalake_get (n : NodeId) (book_id : String) : IngestM (Option RawDocument) :=
  perform (I := IngestI) (.datalake_get n book_id)
def datalake_put (n : NodeId) (book_id : String) (raw_doc : RawDocument) : IngestM (Result Unit) :=
  perform (I := IngestI) (.datalake_put n book_id raw_doc)
def books_put (n : NodeId) (book_id : String) (metadata : BookMetadata) : IngestM (Result Unit) :=
  perform (I := IngestI) (.books_put n book_id metadata)
def submit (n : NodeId) (task : Task) : IngestM (Result TaskId) := perform (I := IngestI) (.submit n task)
def fetch_gutenberg_text (n : NodeId) (url : String) : IngestM (Result String) := perform (I := IngestI) (.fetch n url)
def log (n : NodeId) (message : String) (err : Option Error) : IngestM Unit :=
  perform (I := IngestI) (.log n ⟨message, err⟩)

def source_url (book_id : String) : String :=
  "https://www.gutenberg.org/cache/epub/" ++ book_id ++ "/pg" ++ book_id ++ ".txt"

def download_failed (book_id : String) : String := "Failed to download book " ++ book_id
def split_failed (book_id : String) : String := "Failed to split book " ++ book_id ++ " into header/body"
def datalake_failed (book_id : String) : String := "Failed to store book " ++ book_id ++ " in datalake"
def metadata_failed (book_id : String) : String := "Failed to store metadata for " ++ book_id
def submit_failed (book_id : String) : String := "Failed to submit index task for " ++ book_id

/-- What is stored of a text that was split. -/
def raw_document (book_id header body : String) : RawDocument := ⟨book_id, header, body, source_url book_id⟩

def book_metadata (rules : TextRules) (book_id header body : String) : BookMetadata :=
  let (word_count, unique_words) := compute_counts rules body
  parse_metadata rules header book_id word_count unique_words

abbrev IngestAnswer := StatusCode × IngestResponse

def respond (book_id : String) (code : StatusCode) (status : String) : IngestAnswer :=
  (code, ⟨book_id, status, source_url book_id⟩)

/-- `if let Err(err) = result { tracing::error!(..) }` -/
def log_error {α : Type} (n : NodeId) (message : String) : Result α → IngestM Unit
  | .ok _ => pure ()
  | .error err => log n message (some err)

/-- What follows once the document is stored. -/
def register (rules : TextRules) (n : NodeId) (book_id header body : String) : IngestM IngestAnswer := do
  log_error n (metadata_failed book_id) (← books_put n book_id (book_metadata rules book_id header body))
  log_error n (submit_failed book_id) (← submit n (Search.index_task book_id))
  pure (respond book_id .ACCEPTED "ingested")

/-- A handler that panics answers nothing. -/
def handle_ingest_gutenberg (rules : TextRules) (n : NodeId) (book_id : String) : IngestM (Option IngestAnswer) := do
  match ← datalake_get n book_id with
  | some _ => pure (some (respond book_id .OK "already_exists"))
  | none =>
    match ← fetch_gutenberg_text n (source_url book_id) with
    | .error err => do
      log n (download_failed book_id) (some err)
      pure (some (respond book_id .BAD_GATEWAY "download_failed"))
    | .ok text =>
      match split_gutenberg_text rules text with
      | none => pure none
      | some none => do
        log n (split_failed book_id) none
        pure (some (respond book_id .UNPROCESSABLE_ENTITY "invalid_format"))
      | some (some (header, body)) => do
        match ← datalake_put n book_id (raw_document book_id header body) with
        | .error err => do
          log n (datalake_failed book_id) (some err)
          pure (some (respond book_id .INTERNAL_SERVER_ERROR "datalake_store_failed"))
        | .ok _ => do
          let answer ← register rules n book_id header body
          pure (some answer)

def handle_ingest_status (n : NodeId) (book_id : String) : IngestM (StatusCode × IngestStatusResponse) := do
  let status := if (← datalake_get n book_id).isSome then "available" else "missing"
  pure (.OK, ⟨book_id, status⟩)

end Program

/-! ## Running it -/

/-- What becomes of the requests of each operation, and of the download. -/
structure Outside where
  fates : IngestAct → NodeId → SocketAddr → Fate NodeId
  download : String → Result String

/-- One way to answer every action. -/
def IngestInt (cfg : MapConfig) (outside : Outside) : (e : IngestAct) → IngestState → IngestI.Ans e × IngestState
  | .datalake_get n book_id, s =>
    let r := exec (MapInt (outside.fates (.datalake_get n book_id))) (DistributedMap.get cfg n book_id) s.datalake
    (r.1, { s with datalake := r.2 })
  | .datalake_put n book_id raw_doc, s =>
    let r :=
      exec (MapInt (outside.fates (.datalake_put n book_id raw_doc))) (DistributedMap.put cfg n book_id raw_doc) s.datalake
    (r.1, { s with datalake := r.2 })
  | .books_put n book_id metadata, s =>
    let r := exec (MapInt (outside.fates (.books_put n book_id metadata))) (DistributedMap.put cfg n book_id metadata) s.books
    (r.1, { s with books := r.2 })
  | .submit n task, s =>
    let r := exec (QueueInt (outside.fates (.submit n task)) fun _ => none) (Executor.submit cfg n task) s.queue
    (r.1, { s with queue := r.2 })
  | .fetch _ url, s => (outside.download url, s)
  | .log _ line, s => ((), { s with log := s.log ++ [line] })

theorem IngestInt_sem {cfg : MapConfig} {net : Network} {outside : Outside}
    (h : ∀ e n addr, net.allows (cfg.host n) addr (outside.fates e n addr)) (e : IngestAct) (s : IngestState) :
    IngestSem cfg net e s (IngestInt cfg outside e s).1 (IngestInt cfg outside e s).2 := by
  cases e with
  | datalake_get n book_id => exact ⟨_, exec_runs (MapInt_sem (h _)) _ _, rfl⟩
  | datalake_put n book_id raw_doc => exact ⟨_, exec_runs (MapInt_sem (h _)) _ _, rfl⟩
  | books_put n book_id metadata => exact ⟨_, exec_runs (MapInt_sem (h _)) _ _, rfl⟩
  | submit n task => exact ⟨_, exec_runs (QueueInt_sem (h _)) _ _, rfl⟩
  | fetch n url => rfl
  | log n line => rfl

end Ingestion
