import DistributedCluster.Ingestion.Handlers
import DistributedCluster.Search.Completion
import DistributedCluster.Search.Engine
/-!
# Books created by hand

`handle_create_book` of `search/handlers.rs`. Its actions are a new id, whole
operations of the metadata store and of the queue, and the lines of the log.
-/

namespace Search

open Async Executor

variable [Serde]

structure CreateBookRequest where
  title : String
  author : String
  language : String
  year : Option UInt32

structure CreateBookResponse where
  book_id : String
  deriving DecidableEq

/-- The first argument is the node that handles the request. -/
inductive CreateAct
  | new_uuid (n : NodeId)
  | books_put (n : NodeId) (book_id : String) (book_meta : BookMetadata)
  | submit (n : NodeId) (task : Task)
  | log (n : NodeId) (line : Ingestion.LogLine)

abbrev CreateI : Interface where
  Act := CreateAct
  Ans
    | .new_uuid _ => String
    | .books_put .. => Result Unit
    | .submit .. => Result TaskId
    | .log .. => Unit

section Program

abbrev CreateM := Async CreateI

def new_uuid (n : NodeId) : CreateM String := perform (I := CreateI) (.new_uuid n)
def books_put (n : NodeId) (book_id : String) (book_meta : BookMetadata) : CreateM (Result Unit) :=
  perform (I := CreateI) (.books_put n book_id book_meta)
def submit (n : NodeId) (task : Task) : CreateM (Result TaskId) := perform (I := CreateI) (.submit n task)
def log (n : NodeId) (message : String) (err : Option Error) : CreateM Unit := perform (I := CreateI) (.log n ⟨message, err⟩)

def new_book (book_id : String) (req : CreateBookRequest) : BookMetadata where
  book_id
  title := req.title
  author := req.author
  language := req.language
  year := req.year
  word_count := 0
  unique_words := 0

/-- `if let Err(e) = queue.submit(task).await { tracing::error!(..) }` -/
def submit_logged (n : NodeId) (task : Task) : CreateM Unit := do
  match ← submit n task with
  | .ok _ => pure ()
  | .error e => log n "Failed to submit index task" (some e)

def handle_create_book (n : NodeId) (req : CreateBookRequest) : CreateM (StatusCode × CreateBookResponse) := do
  let book_id ← new_uuid n
  match ← books_put n book_id (new_book book_id req) with
  | .ok _ => do
    log n "Successfully created book" none
    submit_logged n (index_task book_id)
    pure (.CREATED, ⟨book_id⟩)
  | .error e => do
    log n "Failed to create book" (some e)
    pure (.INTERNAL_SERVER_ERROR, ⟨book_id⟩)

end Program

/-- All that the handlers of a server work on. -/
structure Server where
  books : MapCluster String BookMetadata
  maps : IndexState
  queue : QueueCluster
  log : List Ingestion.LogLine

namespace Server

def ingest (s : Server) : Ingestion.IngestState := ⟨s.maps.datalake, s.books, s.queue, s.log⟩

def worker (s : Server) : WorkerState := ⟨s.queue, s.maps⟩

def search (s : Server) : SearchState := ⟨s.maps.index_map, s.books⟩

/-- The id of a book is in one of the stores of node `n`, or in a task. -/
inductive Known (cfg : MapConfig) (n : NodeId) (s : Server) (book_id : String) : Prop
  | document (doc : RawDocument) (h : s.maps.datalake.stored n (cfg.partition_of book_id) book_id = some doc)
  | listed (token : String) (h : book_id ∈ local_ids cfg n s.maps token)
  | record (key : String) (book_meta : BookMetadata) (h : s.books.stored n (cfg.partition_of key) key = some book_meta)
    (hid : key = book_id ∨ book_meta.book_id = book_id)
  | task (task_id : TaskId) (entry : TaskEntry) (h : s.queue.task n (Executor.partition_of cfg task_id) task_id = some entry)
    (htask : entry.task = index_task book_id)

end Server

/-- A new id is one that the node does not know. -/
def CreateSem (cfg : MapConfig) (net : Network) : Sem CreateI Server
  | .new_uuid n, s, x, s' => ¬ s.Known cfg n x ∧ s' = s
  | .books_put n book_id book_meta, s, r, s' =>
    ∃ b, Runs (MapSem cfg net) Eq (DistributedMap.put cfg n book_id book_meta) s.books r b ∧ s' = { s with books := b }
  | .submit n task, s, r, s' =>
    ∃ q, Runs (QueueSem cfg net) Eq (Executor.submit cfg n task) s.queue r q ∧ s' = { s with queue := q }
  | .log _ line, s, _, s' => s' = { s with log := s.log ++ [line] }

end Search
