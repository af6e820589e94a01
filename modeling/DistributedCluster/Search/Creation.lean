import DistributedCluster.Executor.Acceptance
import DistributedCluster.Search.Handlers
/-!
# What becomes of books created by hand

Creating a book stores its record and submits its index task. The task reads the
book's document, which only ingestion stores: without one it completes and lists
nothing, so no search finds the book.
-/

namespace Search

open Async Executor DistributedMap
open Ingestion (TextRules IngestSem handle_ingest_gutenberg)

variable {cfg : MapConfig} {net : Network} {rules : TextRules} {unicode : Unicode} {n : NodeId} {book_id : String}
  {maps maps' : IndexState} {s s' : Server}

section

variable [Serde]

/-! ## A server -/

/-- One thing after the other happens at node `n`, and nobody ingests the book. -/
inductive ServerStep (cfg : MapConfig) (rules : TextRules) (n : NodeId) (book_id : String) : Server → Server → Prop
  | create {s s' : Server} (req : CreateBookRequest) {answer} :
      Runs (CreateSem cfg .reliable) Eq (handle_create_book n req) s answer s' → ServerStep cfg rules n book_id s s'
  | ingest {s : Server} {i : Ingestion.IngestState} {other : String} (hother : other ≠ book_id) {answer} :
      Runs (IngestSem cfg .reliable) Eq (handle_ingest_gutenberg rules n other) s.ingest answer i →
      ServerStep cfg rules n book_id s ⟨i.books, { s.maps with datalake := i.datalake }, i.queue, i.log⟩
  | search {s : Server} {t : SearchState} (query : String) {results} :
      Runs (SearchSem cfg .reliable n) Eq (search rules.toUnicode query) s.search results t →
      ServerStep cfg rules n book_id s { s with books := t.books_map, maps := { s.maps with index_map := t.index_map } }
  | submit {s : Server} {q : QueueCluster} (task : Task) {r} : Runs (QueueSem cfg .reliable) Eq (Executor.submit cfg n task) s.queue r q →
      ServerStep cfg rules n book_id s { s with queue := q }
  /-- a worker executes one of the tasks it has listed: others may have claimed those before it -/
  | work {s : Server} {tasks q₁ task_id entry q₂ w} : Runs (QueueSem cfg .reliable) Eq (my_pending_tasks cfg n) s.queue tasks q₁ →
      (task_id, entry) ∈ tasks → Runs (QueueSem cfg .reliable) Eq (try_claim_task cfg n task_id) q₁ (.ok true) q₂ →
      Runs (WorkerSem cfg .reliable rules.toUnicode) (Meanwhile cfg) (execute_with_lease cfg n task_id entry.task)
        ⟨q₂, s.maps⟩ () w →
      ServerStep cfg rules n book_id s { s with queue := w.queue, maps := w.maps }
  | wait {s : Server} {w : WorkerState} : Meanwhile cfg s.worker w → ServerStep cfg rules n book_id s { s with queue := w.queue, maps := w.maps }

abbrev ServerSteps (cfg : MapConfig) (rules : TextRules) (n : NodeId) (book_id : String) : Server → Server → Prop :=
  Relation.ReflTransGen (ServerStep cfg rules n book_id)

/-- Node `n` is the whole cluster. -/
structure Alone (cfg : MapConfig) (n : NodeId) (s : Server) : Prop where
  books : Single n s.books
  maps : Solo n s.maps
  view : PartitionManager.HoldsAlive (s.queue.view n) (single n)
  queue : Reachable cfg .reliable s.queue

/-- The index task of the book has been executed. -/
def Completed (cfg : MapConfig) (n : NodeId) (book_id : String) (s : Server) : Prop :=
  ∃ task_id entry, s.queue.task n (Executor.partition_of cfg task_id) task_id = some entry ∧
    entry.task = index_task book_id ∧ entry.status = .Completed

/-- The request was answered with 201 and the id of the book, and the index task it
submitted has been executed. -/
def Indexed (cfg : MapConfig) (rules : TextRules) (n : NodeId) (req : CreateBookRequest) (s : Server) (book_id : String)
    (s' : Server) : Prop :=
  ∃ s₁, Runs (CreateSem cfg .reliable) Eq (handle_create_book n req) s (.CREATED, ⟨book_id⟩) s₁ ∧
    ServerSteps cfg rules n book_id s₁ s' ∧ Completed cfg n book_id s'

/-- Then every search for a token of the title returns the book. -/
def Searchable (cfg : MapConfig) (rules : TextRules) (n : NodeId) (req : CreateBookRequest) (s : Server) : Prop :=
  ∀ book_id s', Indexed cfg rules n req s book_id s' → ∀ token ∈ tokenize_text rules.toUnicode req.title,
    ∀ results t, Runs (SearchSem cfg .reliable n) Eq (search rules.toUnicode token) s'.search results t →
      ∃ result ∈ results, result.1.book_id = book_id

/-! ## A book without a document -/

/-- The datalake has no document of the book, and no list has its id. -/
structure Unlisted (cfg : MapConfig) (n : NodeId) (book_id : String) (maps : IndexState) : Prop where
  solo : Solo n maps
  document : maps.datalake.stored n (cfg.partition_of book_id) book_id = none
  postings : ∀ token, book_id ∉ local_ids cfg n maps token

/-- The book has a record, and no other record bears its id. -/
structure Recorded (cfg : MapConfig) (n : NodeId) (book_id : String) (books : MapCluster String BookMetadata) : Prop where
  single : Single n books
  stored : (books.stored n (cfg.partition_of book_id) book_id).isSome
  own : ∀ key book_meta, books.stored n (cfg.partition_of key) key = some book_meta → book_meta.book_id = book_id → key = book_id

theorem Recorded.known (h : Recorded cfg n book_id s.books) : s.Known cfg n book_id := by
  obtain ⟨book_meta, hstored⟩ := Option.isSome_iff_exists.1 h.stored
  exact .record book_id book_meta hstored (.inl rfl)

theorem Recorded.put {books books' : MapCluster String BookMetadata} {key : String} {book_meta : BookMetadata}
    {r : Result Unit} (h : Recorded cfg n book_id books) (hkey : key ≠ book_id) (hmeta : book_meta.book_id ≠ book_id)
    (hput : Runs (MapSem cfg net) Eq (put cfg n key book_meta) books r books') : Recorded cfg n book_id books' := by
  obtain ⟨-, hview, hstored⟩ := put_single h.single hput
  constructor
  · have hsingle := h.single
    unfold Single at hsingle ⊢
    rwa [hview]
  · rw [hstored, if_neg hkey.symm]
    exact h.stored
  · intro k m hk hm
    rw [hstored] at hk
    split at hk
    · cases hk
      exact absurd hm hmeta
    · exact h.own k m hk hm

theorem Unlisted.put_document {datalake : MapCluster String RawDocument} {key : String} {doc : RawDocument}
    {r : Result Unit} (h : Unlisted cfg n book_id maps) (hkey : key ≠ book_id)
    (hput : Runs (MapSem cfg net) Eq (put cfg n key doc) maps.datalake r datalake) :
    Unlisted cfg n book_id { maps with datalake } := by
  obtain ⟨-, hview, hstored⟩ := put_single h.solo.1 hput
  constructor
  · refine ⟨?_, h.solo.2⟩
    have hsingle := h.solo.1
    unfold Single at hsingle ⊢
    rwa [hview]
  · rw [hstored, if_neg hkey.symm]
    exact h.document
  · exact h.postings

/-! ## What the handlers do to it -/

/-- Without the document the task of the book lists nothing, and tasks of other
books list those. -/
theorem Unlisted.execute {task : Task} {r : Result Unit} (h : Unlisted cfg n book_id maps)
    (hrun : Runs (IndexSem cfg net) Eq (execute unicode n task) maps r maps') : Unlisted cfg n book_id maps' := by
  obtain ⟨handler, payload⟩ := task
  unfold Search.execute at hrun
  dsimp only at hrun
  split at hrun
  · cases hpayload : JsonPayload.from_value (V := IndexTaskPayload) payload with
    | error e =>
      simp only [index_document, hpayload] at hrun
      obtain ⟨-, rfl⟩ := runs_pure.1 hrun
      exact h
    | ok named =>
      obtain ⟨other⟩ := named
      have htask : index_document unicode n (.Execute handler payload) = index_document unicode n (index_task other) := by
        simp only [index_document, index_task, hpayload, JsonPayload.from_value_to_value]
      rw [htask] at hrun
      obtain ⟨hsolo, hdatalake, hlists⟩ := index_document_single h.solo hrun
      refine ⟨hsolo, by rw [hdatalake, h.document], fun token hmem => ?_⟩
      by_cases hhas : HasToken cfg unicode n maps.datalake token other
      · rw [(hlists token).1 hhas, mem_push_book_iff] at hmem
        rcases hmem with hmem | rfl
        · exact h.postings token hmem
        · obtain ⟨doc, hdoc, -⟩ := hhas
          rw [h.document] at hdoc
          cases hdoc
      · rw [(hlists token).2 hhas] at hmem
        exact h.postings token hmem
  · obtain ⟨-, rfl⟩ := runs_pure.1 hrun
    exact h

theorem keeps_execute_with_lease (task_id : TaskId) (task : Task) : Keeps (WorkerSem cfg net unicode)
    (fun w => Unlisted cfg n book_id w.maps) (execute_with_lease cfg n task_id task) fun _ => True := by
  unfold execute_with_lease
  apply Keeps.next
  · exact Keeps.act fun w _ w' hw hact => hact.2.symm ▸ hw
  intro _
  apply Keeps.next
  · -- only the handler touches the maps
    apply Keeps.act
    rintro w x w' hw ⟨-, r, result, -, -, hrun⟩
    exact hw.execute hrun
  intro outcome
  cases outcome with
  | none => exact Keeps.pure trivial
  | some result =>
    apply Keeps.next
    · exact Keeps.act fun w _ w' hw hact => hact.2.symm ▸ hw
    intro _
    apply Keeps.next
    · exact Keeps.act fun w _ w' hw hact => hact.2.symm ▸ hw
    exact fun _ => Keeps.pure trivial

/-- What holds of the book from its creation on. -/
def Hidden (cfg : MapConfig) (n : NodeId) (book_id : String) (s : Server) : Prop :=
  Unlisted cfg n book_id s.maps ∧ Recorded cfg n book_id s.books

/-- Another new book gets another id. -/
theorem keeps_create (req : CreateBookRequest) :
    Keeps (CreateSem cfg net) (Hidden cfg n book_id) (handle_create_book n req) fun _ => True := by
  have hlog : ∀ message err, Keeps (CreateSem cfg net) (Hidden cfg n book_id) (log n message err) fun _ => True := by
    intro message err
    apply Keeps.act
    rintro s x s' hs rfl
    exact hs
  unfold handle_create_book
  apply Keeps.bind (Q := fun id => id ≠ book_id)
  · apply Keeps.perform
    rintro s id s' hs ⟨hnew, rfl⟩
    refine ⟨?_, hs⟩
    rintro rfl
    exact hnew hs.2.known
  intro id hid
  apply Keeps.next
  · apply Keeps.act
    rintro s r s' hs ⟨b, hput, rfl⟩
    exact ⟨hs.1, hs.2.put hid hid hput⟩
  intro r
  cases r with
  | error e => exact (hlog _ _).next fun _ => Keeps.pure trivial
  | ok _ =>
    apply (hlog _ _).next
    intro _
    apply Keeps.next
    · unfold submit_logged
      apply Keeps.next
      · apply Keeps.act
        rintro s r s' hs ⟨q, -, rfl⟩
        exact hs
      intro r
      cases r with
      | ok _ => exact Keeps.pure trivial
      | error e => exact hlog _ _
    exact fun _ => Keeps.pure trivial

/-- The same, for the stores that ingestion works on. -/
def HiddenFrom (cfg : MapConfig) (n : NodeId) (book_id : String) (index_map : MapCluster String (List String))
    (i : Ingestion.IngestState) : Prop :=
  Unlisted cfg n book_id ⟨i.datalake, index_map⟩ ∧ Recorded cfg n book_id i.books

section Ingest

variable {index_map : MapCluster String (List String)}

theorem keeps_log (message : String) (err : Option Error) :
    Keeps (IngestSem cfg net) (HiddenFrom cfg n book_id index_map) (Ingestion.log n message err) fun _ => True := by
  apply Keeps.act
  rintro i x i' hi rfl
  exact hi

theorem keeps_log_error {α : Type} (message : String) (r : Result α) :
    Keeps (IngestSem cfg net) (HiddenFrom cfg n book_id index_map) (Ingestion.log_error n message r) fun _ => True := by
  cases r with
  | ok _ => exact Keeps.pure trivial
  | error e => exact keeps_log _ _

theorem keeps_register {other header body : String} (hother : other ≠ book_id) :
    Keeps (IngestSem cfg net) (HiddenFrom cfg n book_id index_map) (Ingestion.register rules n other header body)
      fun _ => True := by
  unfold Ingestion.register
  apply Keeps.next
  · apply Keeps.act
    rintro i r i' hi ⟨b, hput, rfl⟩
    exact ⟨hi.1, hi.2.put hother hother hput⟩
  intro r
  apply (keeps_log_error _ r).next
  intro _
  apply Keeps.next
  · apply Keeps.act
    rintro i r i' hi ⟨q, -, rfl⟩
    exact hi
  exact fun r => (keeps_log_error _ r).next fun _ => Keeps.pure trivial

/-- The document and the record of an ingested book are its own. -/
theorem keeps_ingest {other : String} (hother : other ≠ book_id) :
    Keeps (IngestSem cfg net) (HiddenFrom cfg n book_id index_map) (handle_ingest_gutenberg rules n other) fun _ => True := by
  unfold handle_ingest_gutenberg
  apply Keeps.next
  · apply Keeps.act
    rintro i x i' hi ⟨d, hget, rfl⟩
    obtain ⟨-, rfl⟩ := get_single hi.1.solo.1 hget
    exact hi
  intro found
  cases found with
  | some _ => exact Keeps.pure trivial
  | none =>
    apply Keeps.next
    · apply Keeps.act
      rintro i x i' hi rfl
      exact hi
    intro download
    cases download with
    | error e => exact (keeps_log _ _).next fun _ => Keeps.pure trivial
    | ok text =>
      dsimp only
      split
      · exact Keeps.pure trivial
      · exact (keeps_log _ _).next fun _ => Keeps.pure trivial
      · apply Keeps.next
        · apply Keeps.act
          rintro i r i' hi ⟨d, hput, rfl⟩
          exact ⟨hi.1.put_document hother hput, hi.2⟩
        intro r
        cases r with
        | error e => exact (keeps_log _ _).next fun _ => Keeps.pure trivial
        | ok _ => exact (keeps_register hother).next fun _ => Keeps.pure trivial

end Ingest

/-- A search reads, and changes nothing. -/
theorem runs_search_single {query : String} {t t' : SearchState} {results : List (BookMetadata × Nat)}
    (hindex : Single n t.index_map) (hbooks : Single n t.books_map)
    (h : Runs (SearchSem cfg net n) Eq (search unicode query) t results t') :
    Runs (StoreSem (fun token => t.index_map.stored n (cfg.partition_of token) token)
      fun id => t.books_map.stored n (cfg.partition_of id) id) Eq (search unicode query) () results () ∧ t' = t := by
  apply runs_store_of (I := fun u => u = t) _ _ h rfl
  · rintro u token x m rfl hget
    obtain ⟨rfl, rfl⟩ := get_single hindex hget
    exact ⟨rfl, rfl⟩
  · rintro u id x m rfl hget
    obtain ⟨rfl, rfl⟩ := get_single hbooks hget
    exact ⟨rfl, rfl⟩

/-! ## It is never found -/

theorem hidden_step (hs : Hidden cfg n book_id s) (h : ServerStep cfg rules n book_id s s') : Hidden cfg n book_id s' := by
  cases h with
  | create req hrun => exact ((keeps_create req).runs hs hrun).2
  | ingest hother hrun => exact ((keeps_ingest hother).runs (s := s.ingest) hs hrun).2
  | search query hrun =>
    obtain ⟨-, rfl⟩ := runs_search_single hs.1.solo.2 hs.2.single hrun
    exact hs
  | submit task _ => exact hs
  | work _ _ _ hexecute =>
    have hkept : Runs (WorkerSem cfg .reliable rules.toUnicode) (Keep fun w => Unlisted cfg n book_id w.maps) _ _ _ _ :=
      hexecute.mono fun w w' hbeside hw => by
        dsimp only
        rwa [hbeside.2]
    exact ⟨(Triple.runs (keeps_execute_with_lease _ _) hs.1 hkept).2, hs.2⟩
  | wait hwait => exact ⟨hwait.2.symm ▸ hs.1, hs.2⟩

theorem hidden_steps (hs : Hidden cfg n book_id s) (h : ServerSteps cfg rules n book_id s s') : Hidden cfg n book_id s' := by
  induction h with
  | refl => exact hs
  | tail _ hstep ih => exact hidden_step ih hstep

/-- Whatever is listed has a record of its own. -/
theorem Hidden.not_found {query : String} {results : List (BookMetadata × Nat)} {t : SearchState} (hs : Hidden cfg n book_id s)
    (h : Runs (SearchSem cfg net n) Eq (search unicode query) s.search results t) :
    ∀ result ∈ results, result.1.book_id ≠ book_id := by
  obtain ⟨hstores, -⟩ := runs_search_single hs.1.solo.2 hs.2.single h
  obtain ⟨order, hperm, rfl⟩ := runs_search.1 hstores
  intro result hresult hid
  simp only [rank, List.mem_mergeSort, hydrated, List.mem_filterMap] at hresult
  obtain ⟨⟨id, score⟩, horder, hrecord⟩ := hresult
  obtain ⟨book_meta, hstored, rfl⟩ := Option.map_eq_some_iff.1 hrecord
  obtain rfl := hs.2.own id book_meta hstored hid
  -- so the id would be in the list of a token
  have hmem := (book_scores_iter.mem_iff.1 (hperm.mem_iff.1 horder))
  obtain ⟨listed_id, hlisted, heq⟩ := List.mem_map.1 hmem
  obtain ⟨rfl, -⟩ := Prod.mk.inj heq
  simp only [listed, List.mem_dedup, List.mem_flatMap] at hlisted
  obtain ⟨token, -, hmem⟩ := hlisted
  exact hs.1.postings token hmem

/-- A node alone answers with 201: it stores the record and submits the task. -/
theorem runs_handle_create {req : CreateBookRequest} {answer : StatusCode × CreateBookResponse} (hs : Single n s.books)
    (h : Runs (CreateSem cfg net) Eq (handle_create_book n req) s answer s') :
    ∃ id, ¬ s.Known cfg n id ∧ answer = (.CREATED, ⟨id⟩) ∧ s'.maps = s.maps ∧
      (∃ r, Runs (MapSem cfg net) Eq (put cfg n id (new_book id req)) s.books r s'.books) ∧
      ∃ r, Runs (QueueSem cfg net) Eq (Executor.submit cfg n (index_task id)) s.queue r s'.queue := by
  obtain ⟨id, s₁, huuid, hrest⟩ := runs_bind.1 h
  obtain ⟨hnew, rfl⟩ := runs_perform.1 huuid
  obtain ⟨r, s₂, hput, hrest⟩ := runs_bind.1 hrest
  obtain ⟨books, hwrite, rfl⟩ := runs_perform.1 hput
  obtain ⟨rfl, -⟩ := put_single hs hwrite
  obtain ⟨_, s₃, hlog, hrest⟩ := runs_bind.1 hrest
  obtain rfl := runs_perform.1 hlog
  obtain ⟨_, s₄, hsubmit, hend⟩ := runs_bind.1 hrest
  obtain ⟨rfl, rfl⟩ := runs_pure.1 hend
  obtain ⟨r, s₅, hqueue, hlogged⟩ := runs_bind.1 hsubmit
  obtain ⟨queue, hsubmitted, rfl⟩ := runs_perform.1 hqueue
  refine ⟨id, hnew, rfl, ?_⟩
  -- a task that could not be submitted is in the log
  cases r with
  | ok _ =>
    obtain ⟨-, rfl⟩ := runs_pure.1 hlogged
    exact ⟨rfl, ⟨_, hwrite⟩, _, hsubmitted⟩
  | error e =>
    obtain rfl := runs_perform.1 hlogged
    exact ⟨rfl, ⟨_, hwrite⟩, _, hsubmitted⟩

/-- A book is hidden when it is created: its id is new. -/
theorem hidden_of_created {req : CreateBookRequest} {code : StatusCode} (hbooks : Single n s.books) (hmaps : Solo n s.maps)
    (h : Runs (CreateSem cfg net) Eq (handle_create_book n req) s (code, ⟨book_id⟩) s') : Hidden cfg n book_id s' := by
  obtain ⟨id, hnew, hanswer, hsame, ⟨r, hput⟩, -⟩ := runs_handle_create hbooks h
  cases hanswer
  obtain ⟨-, hview, hstored⟩ := put_single hbooks hput
  refine ⟨?_, ?_, ?_, ?_⟩
  · rw [hsame]
    refine ⟨hmaps, ?_, fun token hmem => hnew (.listed token hmem)⟩
    rw [← Option.not_isSome_iff_eq_none]
    intro hsome
    obtain ⟨doc, hdoc⟩ := Option.isSome_iff_exists.1 hsome
    exact hnew (.document doc hdoc)
  · unfold Single at hbooks ⊢
    rwa [hview]
  · rw [hstored, if_pos rfl]
    rfl
  · intro key book_meta hkey hid
    rw [hstored] at hkey
    split at hkey
    · assumption
    · exact absurd (.record key book_meta hkey (.inr hid)) hnew

/-- No search finds the book, however far its task has got. -/
theorem never_found {req : CreateBookRequest} {code : StatusCode} {s₁ : Server} {query : String}
    {results : List (BookMetadata × Nat)} {t : SearchState} (hbooks : Single n s.books) (hmaps : Solo n s.maps)
    (hcreate : Runs (CreateSem cfg .reliable) Eq (handle_create_book n req) s (code, ⟨book_id⟩) s₁)
    (hsteps : ServerSteps cfg rules n book_id s₁ s')
    (h : Runs (SearchSem cfg net n) Eq (search unicode query) s'.search results t) :
    ∀ result ∈ results, result.1.book_id ≠ book_id :=
  (hidden_steps (hidden_of_created hbooks hmaps hcreate) hsteps).not_found h

/-! ## The task completes all the same -/

/-- The book that an index task is for. -/
def indexed_book : Task → Option String
  | .Execute _ payload =>
    match JsonPayload.from_value (V := IndexTaskPayload) payload with
    | .ok payload => some payload.book_id
    | .error _ => none

theorem indexed_book_index_task (book_id : String) : indexed_book (index_task book_id) = some book_id := by
  simp [indexed_book, index_task, JsonPayload.from_value_to_value]

/-- The ids that node `n` knows. -/
def known_ids (n : NodeId) (s : Server) : List String :=
  (s.maps.datalake.node n).local_data.flatten.map Prod.fst ++
    (s.maps.index_map.node n).local_data.flatten.flatMap Prod.snd ++
    ((s.books.node n).local_data.flatten.flatMap fun e => [e.1, e.2.book_id]) ++
    (s.queue.node n).local_tasks.flatten.filterMap fun e => indexed_book e.2.task

theorem mem_known_ids (h : s.Known cfg n book_id) : book_id ∈ known_ids n s := by
  simp only [known_ids, List.mem_append]
  cases h with
  | document doc h =>
    refine .inl (.inl (.inl ?_))
    exact List.mem_map.2 ⟨_, DashMap.mem_flatten h, rfl⟩
  | listed token h =>
    refine .inl (.inl (.inr ?_))
    unfold local_ids at h
    cases hlist : s.maps.index_map.stored n (cfg.partition_of token) token with
    | none => simp [hlist] at h
    | some ids =>
      rw [hlist] at h
      exact List.mem_flatMap.2 ⟨_, DashMap.mem_flatten hlist, h⟩
  | record key book_meta h hid =>
    refine .inl (.inr (List.mem_flatMap.2 ⟨_, DashMap.mem_flatten h, ?_⟩))
    rcases hid with rfl | rfl
    · exact List.mem_cons_self
    · exact List.mem_cons_of_mem _ List.mem_cons_self
  | task task_id entry h htask =>
    refine .inr (List.mem_filterMap.2 ⟨_, DashMap.mem_flatten h, ?_⟩)
    rw [htask]
    exact indexed_book_index_task book_id

/-- A node never runs out of ids. -/
theorem exists_new_id (cfg : MapConfig) (n : NodeId) (s : Server) : ∃ id, ¬ s.Known cfg n id := by
  refine ⟨fresh_uuid (known_ids n s).toFinset, fun h => ?_⟩
  apply fresh_uuid_notMem (known_ids n s).toFinset
  exact List.mem_toFinset.2 (mem_known_ids h)

/-! ### The queue of a node alone -/

variable {q q' : QueueCluster} {task : Task}

omit [Serde] in
theorem queue_owners_single (hview : PartitionManager.HoldsAlive (q.view n) (single n)) {p : Nat} {owners : List NodeId}
    (h : Runs (QueueSem cfg net) Eq (Executor.get_owners cfg n p) q owners q') : owners = [n] ∧ q' = q := by
  obtain ⟨view, q₁, hmembership, hend⟩ := runs_bind.1 h
  obtain ⟨rfl, rfl⟩ := runs_perform.1 hmembership
  obtain ⟨rfl, rfl⟩ := runs_pure.1 hend
  rw [PartitionManager.get_owners_eq _ hview.sees]
  exact ⟨owners_single p, rfl⟩

omit [Serde] in
/-- It accepts every task, and keeps it as pending. -/
theorem submit_single (hview : PartitionManager.HoldsAlive (q.view n) (single n)) (hq : Reachable cfg net q)
    {r : Result TaskId} (h : Runs (QueueSem cfg net) Eq (Executor.submit cfg n task) q r q') :
    q'.view = q.view ∧ ∃ task_id entry, r = .ok task_id ∧
      q'.task n (Executor.partition_of cfg task_id) task_id = some entry ∧ entry.task = task ∧ entry.status = .Pending := by
  obtain ⟨task_id, q₁, hid, hrest⟩ := runs_bind.1 h
  obtain ⟨hnew, rfl⟩ := runs_perform.1 hid
  obtain ⟨owners, q₂, howners, hrest⟩ := runs_bind.1 hrest
  obtain ⟨rfl, rfl⟩ := queue_owners_single (q := q.use task_id) hview howners
  dsimp only at hrest
  rw [if_pos rfl] at hrest
  obtain ⟨entry, q₃, hentry, hrest⟩ := runs_bind.1 hrest
  obtain ⟨now, q₄, hnow, hmade⟩ := runs_bind.1 hentry
  obtain ⟨rfl, rfl⟩ := runs_perform.1 hnow
  obtain ⟨rfl, rfl⟩ := runs_pure.1 hmade
  obtain ⟨stored, q₅, hstore, hend⟩ := runs_bind.1 hrest
  obtain ⟨_, q₆, hlocal, hbackups⟩ := runs_bind.1 hstore
  obtain rfl := runs_perform.1 hlocal
  obtain ⟨owners, q₇, howners, hreplicate⟩ := runs_bind.1 hbackups
  obtain ⟨rfl, rfl⟩ := queue_owners_single (by exact hview) howners
  obtain ⟨rfl, rfl⟩ := runs_pure.1 hreplicate
  obtain ⟨rfl, rfl⟩ := runs_pure.1 hend
  let entry : TaskEntry := { task, status := .Pending, assigned_to := none, created_at := q.clock n, lease_expires := none }
  refine ⟨rfl, task_id, entry, rfl, ?_, rfl, rfl⟩
  -- nothing was stored under the new id
  have hnone : q.task n (Executor.partition_of cfg task_id) task_id = none := by
    rw [← Option.not_isSome_iff_eq_none]
    intro hsome
    obtain ⟨old, hold⟩ := Option.isSome_iff_exists.1 hsome
    exact hnew (used_of_reachable hq hold)
  rw [QueueCluster.task_store_local, if_pos ⟨rfl, rfl, rfl⟩]
  exact (congrArg (Option.or · _) hnone).trans rfl

/-! ### A worker executes it -/

/-- Whoever keeps an entry for a task goes on keeping one, for the same task. -/
def SameTasks (w w' : WorkerState) : Prop :=
  ∀ m p id entry, w.queue.task m p id = some entry → ∃ entry', w'.queue.task m p id = some entry' ∧ entry'.task = entry.task

instance : IsPreorder WorkerState SameTasks where
  refl _ _ _ _ entry h := ⟨entry, h, rfl⟩
  trans _ _ _ h h' m p id entry hentry := by
    obtain ⟨entry₁, h₁, hsame₁⟩ := h m p id entry hentry
    obtain ⟨entry₂, h₂, hsame₂⟩ := h' m p id entry₁ h₁
    exact ⟨entry₂, h₂, hsame₂.trans hsame₁⟩

theorem sameTasks_act {e : QueueAct} {w w' : WorkerState} {x : QueueI.Ans e} (h : WorkerSem cfg net unicode e w x w') :
    SameTasks w w' := by
  have hqueue : ∀ {e : QueueAct} {x : QueueI.Ans e}, QueueSem cfg net e w.queue x w'.queue → SameTasks w w' := by
    intro e x hact m p id entry hentry
    obtain ⟨entry', hentry', heffect⟩ := entry_effect hact hentry
    exact ⟨entry', hentry', heffect.task⟩
  cases e with
  | execute m task =>
    intro m p id entry hentry
    rw [← h.1] at hentry
    exact ⟨entry, hentry, rfl⟩
  | _ => exact hqueue h.1

omit [Serde] in
theorem sameTasks_meanwhile {w w' : WorkerState} (h : Meanwhile cfg w w') : SameTasks w w' := by
  have hsteps : ∀ q', Relation.ReflTransGen (fun q q' => Beside cfg q [] q') w.queue q' → SameTasks w ⟨q', w.maps⟩ := by
    intro q' h
    induction h with
    | refl => exact refl _
    | tail _ hbeside ih =>
      intro m p id entry hentry
      obtain ⟨entry₁, h₁, hsame⟩ := ih m p id entry hentry
      cases hbeside with
      | tick clock => exact ⟨entry₁, h₁, hsame⟩
      | @renewal l task_id _ =>
        rcases (renewal_round_entry cfg _ l task_id).2.2.2 m p id with hkept | ⟨old, lease, hold, -, hnew⟩
        · exact ⟨entry₁, hkept.trans h₁, hsame⟩
        · obtain rfl := Option.some.inj (h₁.symm.trans hold)
          exact ⟨_, hnew, hsame⟩
  intro m p id entry hentry
  exact hsteps _ h.1 m p id entry hentry

omit [Serde] in
/-- A worker that lists the tasks can claim each that is pending. -/
theorem exists_claimed {task_id : TaskId} {entry : TaskEntry} (hview : PartitionManager.HoldsAlive (q.view n) (single n))
    (hentry : q.task n (Executor.partition_of cfg task_id) task_id = some entry) (hpending : entry.status = .Pending) :
    ∃ tasks q' claimed, Runs (QueueSem cfg net) Eq (my_pending_tasks cfg n) q tasks q ∧ (task_id, entry) ∈ tasks ∧
      Runs (QueueSem cfg net) Eq (try_claim_task cfg n task_id) q (.ok true) q' ∧
      q'.task n (Executor.partition_of cfg task_id) task_id = some claimed ∧ claimed.task = entry.task := by
  obtain ⟨tasks, q₁, hlist⟩ := Runs.total (R := Eq) (QueueSem_total cfg net) (my_pending_tasks cfg n) q
  obtain ⟨rfl, hlisted⟩ := my_pending_tasks_returns hlist
  have hprimary : IsPrimary cfg q₁ n (Executor.partition_of cfg task_id) := by
    refine ⟨PartitionManager.get_partition_lt .., ?_⟩
    rw [PartitionManager.get_owners_eq _ hview.sees]
    exact congrArg List.head? (owners_single _)
  have hclaim : Runs (QueueSem cfg net) Eq (try_claim_task cfg n task_id) q₁ _ _ := try_claim_task_returns.2 ⟨rfl, rfl⟩
  rw [claim_pending hentry hpending] at hclaim
  let claimed := { entry with status := .Running, assigned_to := some n, lease_expires := some (q₁.clock n + 30000) }
  refine ⟨tasks, _, claimed, hlist, (hlisted _).2 ⟨_, hprimary, hentry, .inl hpending⟩, hclaim, ?_, rfl⟩
  exact (QueueCluster.task_put_task _).trans (if_pos ⟨rfl, rfl, rfl⟩)

/-- The handler finds no document and answers `Ok`. -/
theorem execute_unlisted (cfg : MapConfig) (net : Network) (unicode : Unicode) (h : Unlisted cfg n book_id maps) :
    Runs (IndexSem cfg net) Eq (execute unicode n (index_task book_id)) maps (.ok ()) maps := by
  obtain ⟨x, datalake, hget⟩ := Runs.total (R := Eq) (MapSem_total cfg net) (get cfg n book_id) maps.datalake
  obtain ⟨rfl, rfl⟩ := get_single h.solo.1 hget
  have hact : IndexSem cfg net (.datalake_get n book_id) maps _ maps := ⟨_, hget, rfl⟩
  rw [h.document] at hact
  have hpayload := JsonPayload.from_value_to_value (IndexTaskPayload.mk book_id)
  exact (runs_index_document hpayload "index_document").2 ⟨none, maps, hact, rfl, rfl⟩

/-- A worker completes the pending task of the book. -/
theorem exists_work (rules : TextRules) {task_id : TaskId} {entry : TaskEntry}
    (hview : PartitionManager.HoldsAlive (s.queue.view n) (single n)) (h : Unlisted cfg n book_id s.maps)
    (hentry : s.queue.task n (Executor.partition_of cfg task_id) task_id = some entry) (hpending : entry.status = .Pending)
    (htask : entry.task = index_task book_id) :
    ∃ s', ServerStep cfg rules n book_id s s' ∧ Completed cfg n book_id s' := by
  obtain ⟨tasks, q, claimed, hlist, hmem, hclaim, hclaimed, hsame⟩ := exists_claimed hview hentry hpending
  have hexecute := execute_unlisted cfg .reliable rules.toUnicode h
  rw [← htask] at hexecute
  have hstatus : status cfg n task_id q = some claimed.status := congrArg (Option.map TaskEntry.status) hclaimed
  obtain ⟨w, hwork, -, hcompleted⟩ := exists_completed (s := ⟨q, s.maps⟩) hstatus hexecute
  refine ⟨_, .work hlist hmem hclaim hwork, ?_⟩
  -- the entry is still for the task of the book
  have hbeside : Runs (WorkerSem cfg .reliable rules.toUnicode) SameTasks _ _ _ _ := hwork.mono fun _ _ => sameTasks_meanwhile
  have hacts : ∀ e w x w', WorkerSem cfg .reliable rules.toUnicode e w x w' → SameTasks w w' := fun _ _ _ _ => sameTasks_act
  have hkept : SameTasks ⟨q, s.maps⟩ w := hbeside.within hacts
  obtain ⟨done, hdone, hdone_task⟩ := hkept n _ task_id claimed hclaimed
  refine ⟨task_id, done, hdone, by rw [hdone_task, hsame, htask], ?_⟩
  rw [status, hdone] at hcompleted
  exact Option.some.inj hcompleted

theorem exists_created (req : CreateBookRequest) (hs : Alone cfg n s) :
    ∃ book_id s', Runs (CreateSem cfg .reliable) Eq (handle_create_book n req) s (.CREATED, ⟨book_id⟩) s' := by
  obtain ⟨id, hnew⟩ := exists_new_id cfg n s
  obtain ⟨r, books, hput⟩ := Runs.total (R := Eq) (MapSem_total cfg .reliable) (put cfg n id (new_book id req)) s.books
  obtain ⟨rfl, -⟩ := put_single hs.books hput
  obtain ⟨r, q, hsubmit⟩ := Runs.total (R := Eq) (QueueSem_total cfg .reliable) (Executor.submit cfg n (index_task id)) s.queue
  obtain ⟨-, task_id, entry, rfl, -⟩ := submit_single hs.view hs.queue hsubmit
  let lines := s.log ++ [⟨"Successfully created book", none⟩]
  refine ⟨id, ⟨books, s.maps, q, lines⟩, runs_bind.2 ⟨id, s, runs_perform.2 ⟨hnew, rfl⟩, ?_⟩⟩
  refine runs_bind.2 ⟨.ok (), ⟨books, s.maps, s.queue, s.log⟩, runs_perform.2 ⟨books, hput, rfl⟩, ?_⟩
  refine runs_bind.2 ⟨(), ⟨books, s.maps, s.queue, lines⟩, runs_perform.2 rfl, ?_⟩
  refine runs_bind.2 ⟨(), ⟨books, s.maps, q, lines⟩, ?_, runs_pure.2 ⟨rfl, rfl⟩⟩
  exact runs_bind.2 ⟨.ok task_id, ⟨books, s.maps, q, lines⟩, runs_perform.2 ⟨q, hsubmit, rfl⟩, runs_pure.2 ⟨rfl, rfl⟩⟩

theorem exists_indexed (rules : TextRules) (req : CreateBookRequest) (hs : Alone cfg n s) :
    ∃ book_id s', Indexed cfg rules n req s book_id s' := by
  obtain ⟨book_id, s₁, hcreate⟩ := exists_created req hs
  have hhidden := hidden_of_created hs.books hs.maps hcreate
  obtain ⟨id, -, hanswer, -, -, r, hsubmit⟩ := runs_handle_create hs.books hcreate
  cases hanswer
  obtain ⟨hview, task_id, entry, -, hentry, htask, hpending⟩ := submit_single hs.view hs.queue hsubmit
  obtain ⟨s₂, hwork, hcompleted⟩ := exists_work rules (by rw [hview]; exact hs.view) hhidden.1 hentry hpending htask
  exact ⟨book_id, s₂, s₁, hcreate, .single hwork, hcompleted⟩

theorem SearchSem_total (cfg : MapConfig) (net : Network) (n : NodeId) (e : SearchAct) (t : SearchState) :
    ∃ x t', SearchSem cfg net n e t x t' := by
  cases e with
  | index_get token =>
    obtain ⟨x, m, hget⟩ := Runs.total (R := Eq) (MapSem_total cfg net) (get cfg n token) t.index_map
    exact ⟨x, _, m, hget, rfl⟩
  | books_get id =>
    obtain ⟨x, m, hget⟩ := Runs.total (R := Eq) (MapSem_total cfg net) (get cfg n id) t.books_map
    exact ⟨x, _, m, hget, rfl⟩
  | iterate entries => exact ⟨entries, t, .refl entries, rfl⟩

theorem not_searchable {req : CreateBookRequest} (hs : Alone cfg n s) {token : String}
    (htoken : token ∈ tokenize_text rules.toUnicode req.title) : ¬ Searchable cfg rules n req s := by
  intro h
  obtain ⟨book_id, s', hindexed⟩ := exists_indexed rules req hs
  obtain ⟨results, t, hsearch⟩ := Runs.total (R := Eq) (SearchSem_total cfg .reliable n) (search rules.toUnicode token) s'.search
  obtain ⟨result, hmem, hid⟩ := h book_id s' hindexed token htoken results t hsearch
  obtain ⟨s₁, hcreate, hsteps, -⟩ := hindexed
  exact never_found hs.books hs.maps hcreate hsteps hsearch result hmem hid

/-- Whatever the title, on a node alone the task of a new book completes, and no search
for anything finds the book. -/
theorem created_never_searchable (cfg : MapConfig) (rules : TextRules) (n : NodeId) (req : CreateBookRequest) (s : Server)
    (hs : Alone cfg n s) (htitle : tokenize_text rules.toUnicode req.title ≠ []) :
    ¬ Searchable cfg rules n req s ∧ ∀ book_id s', Indexed cfg rules n req s book_id s' → ∀ query results t,
      Runs (SearchSem cfg .reliable n) Eq (search rules.toUnicode query) s'.search results t →
        ∀ result ∈ results, result.1.book_id ≠ book_id := by
  obtain ⟨token, htoken⟩ := List.exists_mem_of_ne_nil _ htitle
  refine ⟨not_searchable hs htoken, ?_⟩
  rintro book_id s' ⟨s₁, hcreate, hsteps, -⟩ query results t hsearch
  exact never_found hs.books hs.maps hcreate hsteps hsearch

end

section Example

open CompactJson

/-- A node alone before its first book. -/
def solo_server : Server where
  books := .empty (demo_view (single node_a))
  maps := ⟨.empty (demo_view (single node_a)), .empty (demo_view (single node_a))⟩
  queue := .empty (demo_view (single node_a)) fun _ => 0
  log := []

theorem alone_solo : Alone solo_cfg node_a solo_server := by
  have hview : PartitionManager.HoldsAlive (demo_view (single node_a) node_a) (single node_a) :=
    PartitionManager.holdsAlive_settled ..
  exact ⟨hview, ⟨hview, hview⟩, hview, _, _, [], .refl⟩

def rust_request : CreateBookRequest := ⟨"The Rust Programming Language", "Steve Klabnik", "en", some 2019⟩

theorem rust_not_found : ¬ Searchable solo_cfg .ascii node_a rust_request solo_server ∧
    ∀ book_id s', Indexed solo_cfg .ascii node_a rust_request solo_server book_id s' → ∀ query results t,
      Runs (SearchSem solo_cfg .reliable node_a) Eq (search TextRules.ascii.toUnicode query) s'.search results t →
        ∀ result ∈ results, result.1.book_id ≠ book_id :=
  created_never_searchable solo_cfg .ascii node_a rust_request solo_server alone_solo (by decide)

/-- The title has the token rust. -/
theorem created_not_found : ¬ ∀ (cfg : MapConfig) (rules : TextRules) (n : NodeId) (req : CreateBookRequest) (s : Server),
    Alone cfg n s → tokenize_text rules.toUnicode req.title ≠ [] → Searchable cfg rules n req s := by
  intro h
  have htoken : "rust" ∈ tokenize_text TextRules.ascii.toUnicode rust_request.title := by decide
  exact not_searchable alone_solo htoken (h solo_cfg .ascii node_a rust_request solo_server alone_solo (by decide))

end Example

end Search
