import DistributedCluster.Lib.Expansion
import DistributedCluster.Lib.Histories
import DistributedCluster.Search.Handlers
import DistributedCluster.Storage.Placement
/-!
# The whole application

What `main.rs` puts together: the three maps, the queue with its workers, the one
handler that is registered, and the handlers of the HTTP server. Whole operations of
a map or of the queue are taken apart into their actions here, so everything may
happen in between.
-/

namespace App

open Async

variable [Serde]

/-- `rules` stand for the tables of Unicode, `download` for the texts that another
server may send for a URL. -/
structure World where
  rules : Ingestion.TextRules
  download : String → String → Prop

structure State where
  books : MapCluster String BookMetadata
  datalake : MapCluster String RawDocument
  index_map : MapCluster String (List String)
  queue : Executor.QueueCluster
  log : List Ingestion.LogLine

/-- Actions on nothing that the cluster keeps, the log apart. -/
inductive OutsideAct
  | fetch (n : NodeId) (url : String)
  | log (n : NodeId) (line : Ingestion.LogLine)
  | new_uuid (n : NodeId)
  /-- the text of a handler's error -/
  | report (r : Result Unit)
  | iterate_texts (set : List String)
  | iterate_scores (entries : List (String × Nat))

abbrev OutsideI : Interface where
  Act := OutsideAct
  Ans
    | .fetch .. => Result String
    | .log .. => Unit
    | .new_uuid _ => String
    | .report _ => Except String Unit
    | .iterate_texts _ => List String
    | .iterate_scores _ => List (String × Nat)

inductive Act
  | books (e : MapAct String BookMetadata)
  | datalake (e : MapAct String RawDocument)
  | index (e : MapAct String (List String))
  | queue (e : Executor.QueueAct)
  | outside (e : OutsideAct)

abbrev AppI : Interface where
  Act := Act
  Ans
    | .books e => (MapI String BookMetadata).Ans e
    | .datalake e => (MapI String RawDocument).Ans e
    | .index e => (MapI String (List String)).Ans e
    | .queue e => Executor.QueueI.Ans e
    | .outside e => OutsideI.Ans e

/-- What comes from outside. -/
def OutsideSem (w : World) : (e : OutsideAct) → OutsideI.Ans e → Prop
  | .fetch _ url, x => ∀ text, x = .ok text → w.download url text
  | .log .., _ => True
  | .new_uuid _, _ => True
  | .report r, x => Search.Reported r x
  | .iterate_texts set, x => x.Perm set
  | .iterate_scores entries, x => x.Perm entries

def State.logged (s : State) : OutsideAct → State
  | .log _ line => { s with log := s.log ++ [line] }
  | _ => s

def AppSem (w : World) (cfg : MapConfig) (net : Network) : Sem AppI State
  | .books e, s, x, s' => ∃ b, MapSem cfg net e s.books x b ∧ s' = { s with books := b }
  | .datalake e, s, x, s' => ∃ d, MapSem cfg net e s.datalake x d ∧ s' = { s with datalake := d }
  | .index e, s, x, s' => ∃ m, MapSem cfg net e s.index_map x m ∧ s' = { s with index_map := m }
  | .queue e, s, x, s' => ∃ q, Executor.QueueSem cfg net e s.queue x q ∧ s' = { s with queue := q }
  | .outside e, s, x, s' => OutsideSem w e x ∧ s' = s.logged e

abbrev AppM := Async AppI

def books_acts : Inclusion (MapI String BookMetadata) AppI := ⟨.books, fun x => x⟩
def datalake_acts : Inclusion (MapI String RawDocument) AppI := ⟨.datalake, fun x => x⟩
def index_acts : Inclusion (MapI String (List String)) AppI := ⟨.index, fun x => x⟩

section Programs

variable {α : Type}

def outside (e : OutsideAct) : AppM (OutsideI.Ans e) := perform (I := AppI) (.outside e)

def in_books (p : MapM String BookMetadata α) : AppM α := books_acts.within p
def in_datalake (p : MapM String RawDocument α) : AppM α := datalake_acts.within p
def in_index (p : MapM String (List String) α) : AppM α := index_acts.within p

variable (w : World) (cfg : MapConfig)

/-! ## The operations in full -/

def index_op : (e : Search.IndexAct) → AppM (Search.IndexI.Ans e)
  | .datalake_get n book_id => in_datalake (DistributedMap.get cfg n book_id)
  | .index_get n token => in_index (DistributedMap.get cfg n token)
  | .index_put n token book_ids => in_index (DistributedMap.put cfg n token book_ids)
  | .iterate _ set => outside (.iterate_texts set)

/-- A worker runs the handler itself. -/
def execute_task (n : NodeId) (task : Executor.Task) : AppM (Option (Except String Unit)) := do
  let r ← expand (index_op cfg) (Search.execute w.rules.toUnicode n task)
  let result ← outside (.report r)
  pure (some result)

def queue_op : (e : Executor.QueueAct) → AppM (Executor.QueueI.Ans e)
  | .execute n task => execute_task w cfg n task
  | e => perform (I := AppI) (.queue e)

def in_queue (p : Executor.QueueM α) : AppM α := expand (queue_op w cfg) p

def ingest_op : (e : Ingestion.IngestAct) → AppM (Ingestion.IngestI.Ans e)
  | .datalake_get n book_id => in_datalake (DistributedMap.get cfg n book_id)
  | .datalake_put n book_id raw_doc => in_datalake (DistributedMap.put cfg n book_id raw_doc)
  | .books_put n book_id metadata => in_books (DistributedMap.put cfg n book_id metadata)
  | .submit n task => in_queue w cfg (Executor.submit cfg n task)
  | .fetch n url => outside (.fetch n url)
  | .log n line => outside (.log n line)

def create_op : (e : Search.CreateAct) → AppM (Search.CreateI.Ans e)
  | .new_uuid n => outside (.new_uuid n)
  | .books_put n book_id book_meta => in_books (DistributedMap.put cfg n book_id book_meta)
  | .submit n task => in_queue w cfg (Executor.submit cfg n task)
  | .log n line => outside (.log n line)

def search_op (n : NodeId) : (e : Search.SearchAct) → AppM (Search.SearchI.Ans e)
  | .index_get token => in_index (DistributedMap.get cfg n token)
  | .books_get book_id => in_books (DistributedMap.get cfg n book_id)
  | .iterate entries => outside (.iterate_scores entries)

end Programs

/-! ## Runs -/

/-- What a process is for. -/
inductive Job
  | books (job : DistributedMap.Job String BookMetadata)
  | datalake (job : DistributedMap.Job String RawDocument)
  | index (job : DistributedMap.Job String (List String))
  | queue (job : Executor.Job)
  | ingest (n : NodeId) (book_id : String)
  | ingest_status (n : NodeId) (book_id : String)
  | create_book (n : NodeId) (req : Search.CreateBookRequest)
  | search (n : NodeId) (params : Search.SearchParams)

/-- A program of which only the effects matter. -/
def unattended {α : Type} (p : AppM α) : AppM (Option Search.SearchResponse) := do
  let _ ← p
  pure none

def searching (w : World) (cfg : MapConfig) (n : NodeId) (params : Search.SearchParams) : AppM (Option Search.SearchResponse) := do
  let response ← expand (search_op cfg n) (Search.handle_search w.rules.toUnicode params)
  pure (some response)

inductive Started (w : World) (cfg : MapConfig) (s : State) : Job → AppM (Option Search.SearchResponse) → Prop
  | books {job p} : DistributedMap.Started cfg s.books job p → Started w cfg s (.books job) (unattended (in_books p))
  | datalake {job p} : DistributedMap.Started cfg s.datalake job p → Started w cfg s (.datalake job) (unattended (in_datalake p))
  | index {job p} : DistributedMap.Started cfg s.index_map job p → Started w cfg s (.index job) (unattended (in_index p))
  | queue {job p} : Executor.Started cfg s.queue [] job p → Started w cfg s (.queue job) (unattended (in_queue w cfg p))
  | ingest (n : NodeId) (book_id : String) : Started w cfg s (.ingest n book_id)
      (unattended (expand (ingest_op w cfg) (Ingestion.handle_ingest_gutenberg w.rules n book_id)))
  | ingest_status (n : NodeId) (book_id : String) : Started w cfg s (.ingest_status n book_id)
      (unattended (expand (ingest_op w cfg) (Ingestion.handle_ingest_status n book_id)))
  | create_book (n : NodeId) (req : Search.CreateBookRequest) : Started w cfg s (.create_book n req)
      (unattended (expand (create_op w cfg) (Search.handle_create_book n req)))
  | search (n : NodeId) (params : Search.SearchParams) : Started w cfg s (.search n params) (searching w cfg n params)

/-- Nodes come and go for all parts at once, time passes and leases are renewed. -/
inductive Around (cfg : MapConfig) : State → State → Prop
  | membership {s} (view : NodeId → MembershipService) : Around cfg s { s with
      books := { s.books with view }
      datalake := { s.datalake with view }
      index_map := { s.index_map with view }
      queue := { s.queue with view } }
  | beside {s q} : Executor.Beside cfg s.queue [] q → Around cfg s { s with queue := q }

abbrev AppPool := Pool Job AppI (Option Search.SearchResponse)

/-- Runs of the application, as long as the clients do what `φ` says. -/
abbrev Steps (w : World) (cfg : MapConfig) (net : Network) (φ : Job → Prop) : State × AppPool → State × AppPool → Prop :=
  Pool.Steps (fun _ => AppSem w cfg net) (fun s _ job p => Started w cfg s job p ∧ φ job) fun s _ s' => Around cfg s s'

/-- Such a run with all that it met. -/
abbrev Run (w : World) (cfg : MapConfig) (net : Network) (φ : Job → Prop) : State × AppPool → State × AppPool → Type :=
  Pool.Run (fun _ => AppSem w cfg net) (fun s _ job p => Started w cfg s job p ∧ φ job) fun s _ s' => Around cfg s s'

/-- A cluster where nothing is kept. -/
def State.empty (view : NodeId → MembershipService) (clock : NodeId → Nat) : State :=
  ⟨.empty view, .empty view, .empty view, .empty view clock, []⟩

/-! ## Running it -/

/-- One way to answer every action, if every request is answered. -/
def AppInt (cfg : MapConfig) (answer : (e : OutsideAct) → OutsideI.Ans e) : (e : Act) → State → AppI.Ans e × State
  | .books e, s =>
    let r := MapInt (answered cfg) e s.books
    (r.1, { s with books := r.2 })
  | .datalake e, s =>
    let r := MapInt (answered cfg) e s.datalake
    (r.1, { s with datalake := r.2 })
  | .index e, s =>
    let r := MapInt (answered cfg) e s.index_map
    (r.1, { s with index_map := r.2 })
  | .queue e, s =>
    let r := Executor.QueueInt (answered cfg) (fun _ => none) e s.queue
    (r.1, { s with queue := r.2 })
  | .outside e, s => (answer e, s.logged e)

section Interpreter

variable {w : World} {cfg : MapConfig} {net : Network} {answer : (e : OutsideAct) → OutsideI.Ans e} {φ : Job → Prop}

omit [Serde] in
theorem AppInt_sem (h : ∀ e, OutsideSem w e (answer e)) (e : Act) (s : State) :
    AppSem w cfg net e s (AppInt cfg answer e s).1 (AppInt cfg answer e s).2 := by
  cases e with
  | books e => exact ⟨_, MapInt_sem (allows_answered net) e s.books, rfl⟩
  | datalake e => exact ⟨_, MapInt_sem (allows_answered net) e s.datalake, rfl⟩
  | index e => exact ⟨_, MapInt_sem (allows_answered net) e s.index_map, rfl⟩
  | queue e => exact ⟨_, Executor.QueueInt_sem (allows_answered net) e s.queue, rfl⟩
  | outside e => exact ⟨h e, rfl⟩

/-- One process starts and runs to its end while the others wait. -/
theorem steps_alone (hanswer : ∀ e, OutsideSem w e (answer e)) {c : State × AppPool} {s : State} {l : AppPool} {job : Job}
    {p : AppM (Option Search.SearchResponse)} (h : Steps w cfg net φ c (s, l)) (hstart : Started w cfg s job p) (hjob : φ job) :
    Steps w cfg net φ c ((exec (AppInt cfg answer) p s).2, (job, .done (exec (AppInt cfg answer) p s).1) :: l) := by
  have hrun : Steps w cfg net φ (s, (job, p) :: l)
      ((exec (AppInt cfg answer) p s).2, (job, .done (exec (AppInt cfg answer) p s).1) :: l) :=
    Pool.steps_of_runs (S := fun _ : Job => AppSem w cfg net) (exec_runs (AppInt_sem hanswer) p s) [] l
  exact (h.tail (.spawn job p ⟨hstart, hjob⟩)).trans hrun

end Interpreter

end App
