import DistributedCluster.App.System
import DistributedCluster.Executor.Leases
import DistributedCluster.Storage.Provenance
/-!
# Search answers are backed by documents

A book is found because some index task listed it under a word of a document that
it read. Lists are read and written back by many workers at once, through nodes
that fail and routers that may change a key, and still nobody finds a book that no
document backs.
-/

namespace App

open Async DistributedMap

/-! ## What was met in a run -/

abbrev Met := List (State × AppPool)

section

variable [Serde]

section Holdings

variable (w : World) (cfg : MapConfig) (met : Met)

/-- A process with this job has run. -/
def Began (job : Job) : Prop := ∃ s l p, (s, l) ∈ met ∧ (job, p) ∈ l

/-- Some node had the value in its map. -/
def Kept {V : Type} (map : State → MapCluster String V) (key : String) (value : V) : Prop :=
  ∃ s l, (s, l) ∈ met ∧ ∃ n p, (map s).stored n p key = some value

/-- A document that was put for a book: its text was downloaded, or a client put it. -/
inductive Document (book_id : String) : RawDocument → Prop
  | ingested {n : NodeId} {text header body : String} : Began met (.ingest n book_id) →
    w.download (Ingestion.source_url book_id) text →
    Ingestion.split_gutenberg_text w.rules text = some (some (header, body)) →
    Document book_id (Ingestion.raw_document book_id header body)
  | put {job : DistributedMap.Job String RawDocument} {doc : RawDocument} : Began met (.datalake job) →
    job.Puts book_id doc → Document book_id doc

inductive Record (book_id : String) : BookMetadata → Prop
  | ingested {n : NodeId} {text header body : String} : Began met (.ingest n book_id) →
    w.download (Ingestion.source_url book_id) text →
    Ingestion.split_gutenberg_text w.rules text = some (some (header, body)) →
    Record book_id (Ingestion.book_metadata w.rules book_id header body)
  | created {n : NodeId} {req : Search.CreateBookRequest} : Began met (.create_book n req) →
    Record book_id (Search.new_book book_id req)
  | put {job : DistributedMap.Job String BookMetadata} {metadata : BookMetadata} : Began met (.books job) →
    job.Puts book_id metadata → Record book_id metadata

/-- It was put in the run, and some node had it in the datalake. -/
def DocumentKept (book_id : String) (doc : RawDocument) : Prop :=
  Document w met book_id doc ∧ Kept met State.datalake book_id doc

def RecordKept (book_id : String) (metadata : BookMetadata) : Prop :=
  Record w met book_id metadata ∧ Kept met State.books book_id metadata

/-- A document that is found for the book contains the word, or one that reads of the
word lead to. -/
def Mentions (token book_id : String) : Prop :=
  ∃ t k doc, Relation.ReflTransGen (AskedFor cfg) token t ∧ AskedFor cfg book_id k ∧ DocumentKept w met k doc ∧
    t ∈ tokenize_text w.rules.toUnicode doc.body

def Posting (token : String) (book_ids : List String) : Prop := ∀ book_id ∈ book_ids, Mentions w cfg met token book_id

/-- What a process may do so that the maps go on holding such values. -/
def sound : Discipline AppI Unit where
  may g
    | .books e => (vouching (Record w met) (RecordKept w met)).may g e
    | .datalake e => (vouching (Document w met) (DocumentKept w met)).may g e
    | .index e => (vouching (Posting w cfg met) (Posting w cfg met)).may g e
    | .queue _ | .outside _ => True
  gives g
    | .books e, x => (vouching (Record w met) (RecordKept w met)).gives g e x
    | .datalake e, x => (vouching (Document w met) (DocumentKept w met)).gives g e x
    | .index e, x => (vouching (Posting w cfg met) (Posting w cfg met)).gives g e x
    | .queue _, _ => True
    | .outside e, x => OutsideSem w e x
  next _ _ _ := ()

end Holdings

variable {w : World} {cfg : MapConfig} {met : Met} {net : Network} {n : NodeId}
  {token t book_id k : String} {α : Type}

theorem Mentions.asked (hasked : AskedFor cfg token t) (h : Mentions w cfg met t book_id) :
    Mentions w cfg met token book_id := by
  obtain ⟨t', k, doc, hreads, hk, hdoc, hword⟩ := h
  exact ⟨t', k, doc, hreads.head hasked, hk, hdoc, hword⟩

/-! ## Operations of the maps -/

/-- The process keeps to what the maps may hold, and returns what `Q` says. -/
abbrev Keeps (w : World) (cfg : MapConfig) (met : Met) (p : AppM α) (Q : α → Prop) : Prop :=
  Obeys (sound w cfg met) p () fun a _ => Q a

theorem in_books_keeps {p : MapM String BookMetadata α} {Q : α → Prop}
    (h : Vouches (Record w met) (RecordKept w met) p Q) : Keeps w cfg met (in_books p) Q :=
  Inclusion.obeys_within (fun _ _ h => h) (fun _ _ _ h => h) (fun _ _ _ => rfl) h

theorem in_datalake_keeps {p : MapM String RawDocument α} {Q : α → Prop}
    (h : Vouches (Document w met) (DocumentKept w met) p Q) : Keeps w cfg met (in_datalake p) Q :=
  Inclusion.obeys_within (fun _ _ h => h) (fun _ _ _ h => h) (fun _ _ _ => rfl) h

theorem in_index_keeps {p : MapM String (List String) α} {Q : α → Prop}
    (h : Vouches (Posting w cfg met) (Posting w cfg met) p Q) : Keeps w cfg met (in_index p) Q :=
  Inclusion.obeys_within (fun _ _ h => h) (fun _ _ _ h => h) (fun _ _ _ => rfl) h

theorem outside_keeps (e : OutsideAct) : Keeps w cfg met (outside e) (OutsideSem w e) := Obeys.perform trivial fun _ h => h

theorem datalake_get_keeps (n : NodeId) (book_id : String) :
    Keeps w cfg met (in_datalake (DistributedMap.get cfg n book_id)) fun found =>
      ∀ doc, found = some doc → ∃ k, AskedFor cfg book_id k ∧ DocumentKept w met k doc :=
  in_datalake_keeps get_vouches

/-- A list that was read may be written back. -/
theorem index_get_keeps (n : NodeId) (token : String) :
    Keeps w cfg met (in_index (DistributedMap.get cfg n token)) fun found =>
      ∀ book_ids, found = some book_ids → Posting w cfg met token book_ids := by
  refine (in_index_keeps get_vouches).mono fun found _ h book_ids hfound => ?_
  obtain ⟨t, hasked, hposting⟩ := h book_ids hfound
  exact fun book_id hmem => (hposting book_id hmem).asked hasked

/-! ## Index tasks -/

/-- What an index task may write, and what it finds. -/
def indexing (w : World) (cfg : MapConfig) (met : Met) : Discipline Search.IndexI Unit where
  may _
    | .index_put _ token book_ids => Posting w cfg met token book_ids
    | _ => True
  gives _
    | .datalake_get _ book_id, found => ∀ doc, found = some doc → ∃ k, AskedFor cfg book_id k ∧ DocumentKept w met k doc
    | .index_get _ token, found => ∀ book_ids, found = some book_ids → Posting w cfg met token book_ids
    | .iterate _ set, x => x.Perm set
    | .index_put .., _ => True
  next _ _ _ := ()

theorem index_op_keeps (e : Search.IndexAct) (g : Unit) (h : (indexing w cfg met).may g e) :
    Obeys (sound w cfg met) (index_op cfg e) g fun x g' =>
      (indexing w cfg met).gives g e x ∧ g' = (indexing w cfg met).next g e x := by
  cases e with
  | datalake_get n book_id => exact (datalake_get_keeps n book_id).mono fun _ _ hx => ⟨hx, rfl⟩
  | index_get n token => exact (index_get_keeps n token).mono fun _ _ hx => ⟨hx, rfl⟩
  | index_put n token book_ids => exact (in_index_keeps (put_vouches h)).mono fun _ _ _ => ⟨trivial, rfl⟩
  | iterate n set => exact (outside_keeps (.iterate_texts set)).mono fun _ _ hx => ⟨hx, rfl⟩

theorem index_tokens_keeps {tokens : List String} (h : ∀ token ∈ tokens, Mentions w cfg met token book_id) :
    Obeys (indexing w cfg met) (Search.index_tokens n book_id tokens) () fun _ _ => True := by
  induction tokens with
  | nil => exact Obeys.pure trivial
  | cons token tokens ih =>
    refine Obeys.bind (Q := fun found _ => ∀ book_ids, found = some book_ids → Posting w cfg met token book_ids)
      (Obeys.perform trivial fun _ hfound => hfound) fun found _ hfound => ?_
    -- the book joins those that were listed before
    have hposting : Posting w cfg met token (Search.push_book book_id (found.getD [])) := by
      intro id hid
      by_cases hne : id = book_id
      · rw [hne]
        exact h token List.mem_cons_self
      · have hold := Search.mem_of_mem_push_book hid hne
        cases found with
        | none => cases hold
        | some book_ids => exact hfound book_ids rfl id hold
    refine Obeys.bind (Q := fun _ _ => True) (Obeys.perform hposting fun _ _ => trivial) fun r _ _ => ?_
    cases r with
    | ok u => exact ih fun t ht => h t (List.mem_cons_of_mem _ ht)
    | error e => exact Obeys.pure trivial

theorem index_document_keeps (n : NodeId) (task : Executor.Task) :
    Obeys (indexing w cfg met) (Search.index_document w.rules.toUnicode n task) () fun _ _ => True := by
  obtain ⟨handler, payload⟩ := task
  unfold Search.index_document
  dsimp only
  split
  · exact Obeys.pure trivial
  · rename_i payload _
    refine Obeys.bind
      (Q := fun found _ => ∀ doc, found = some doc → ∃ k, AskedFor cfg payload.book_id k ∧ DocumentKept w met k doc)
      (Obeys.perform trivial fun _ hfound => hfound) fun found _ hfound => ?_
    cases found with
    | none => exact Obeys.pure trivial
    | some doc =>
      obtain ⟨k, hasked, hdoc⟩ := hfound doc rfl
      refine Obeys.bind (Q := fun tokens _ => tokens.Perm (tokenize_text w.rules.toUnicode doc.body))
        (Obeys.perform trivial fun _ hperm => hperm) fun tokens _ hperm => index_tokens_keeps fun token htoken => ?_
      exact ⟨token, k, doc, .refl, hasked, hdoc, hperm.mem_iff.1 htoken⟩

theorem execute_task_keeps (n : NodeId) (task : Executor.Task) :
    Keeps w cfg met (execute_task w cfg n task) fun _ => True := by
  have hexecute : Obeys (indexing w cfg met) (Search.execute w.rules.toUnicode n task) () fun _ _ => True := by
    obtain ⟨handler, payload⟩ := task
    unfold Search.execute
    dsimp only
    split
    · exact index_document_keeps n _
    · exact Obeys.pure trivial
  refine (Obeys.expand (E := indexing w cfg met) index_op_keeps hexecute).bind fun r _ _ => ?_
  exact (outside_keeps (.report r)).bind fun _ _ _ => Obeys.pure trivial

/-- The queue itself touches no map. -/
theorem in_queue_keeps (p : Executor.QueueM α) : Keeps w cfg met (in_queue w cfg p) fun _ => True := by
  refine Obeys.expand (fun e g _ => ?_) (obeys_lax p)
  cases e with
  | execute n task => exact (execute_task_keeps n task).mono fun _ _ _ => ⟨trivial, rfl⟩
  | _ => exact Obeys.perform trivial fun _ _ => ⟨trivial, rfl⟩

/-! ## Handlers that write -/

def ingesting (w : World) (met : Met) : Discipline Ingestion.IngestI Unit where
  may _
    | .datalake_put _ book_id doc => Document w met book_id doc
    | .books_put _ book_id metadata => Record w met book_id metadata
    | _ => True
  gives _
    | .fetch _ url, x => ∀ text, x = .ok text → w.download url text
    | _, _ => True
  next _ _ _ := ()

theorem ingest_op_keeps (e : Ingestion.IngestAct) (g : Unit) (h : (ingesting w met).may g e) :
    Obeys (sound w cfg met) (ingest_op w cfg e) g fun x g' =>
      (ingesting w met).gives g e x ∧ g' = (ingesting w met).next g e x := by
  cases e with
  | datalake_get n book_id => exact (datalake_get_keeps n book_id).mono fun _ _ _ => ⟨trivial, rfl⟩
  | datalake_put n book_id doc => exact (in_datalake_keeps (put_vouches h)).mono fun _ _ _ => ⟨trivial, rfl⟩
  | books_put n book_id metadata => exact (in_books_keeps (put_vouches h)).mono fun _ _ _ => ⟨trivial, rfl⟩
  | submit n task => exact (in_queue_keeps _).mono fun _ _ _ => ⟨trivial, rfl⟩
  | fetch n url => exact (outside_keeps (.fetch n url)).mono fun _ _ hx => ⟨hx, rfl⟩
  | log n line => exact (outside_keeps (.log n line)).mono fun _ _ _ => ⟨trivial, rfl⟩

theorem ingesting_act (e : Ingestion.IngestAct) (h : (ingesting w met).may () e) :
    Obeys (ingesting w met) (perform (I := Ingestion.IngestI) e) () fun _ _ => True :=
  Obeys.perform h fun _ _ => trivial

theorem log_error_keeps {α : Type} (n : NodeId) (message : String) (r : Result α) :
    Obeys (ingesting w met) (Ingestion.log_error n message r) () fun _ _ => True := by
  cases r with
  | ok a => exact Obeys.pure trivial
  | error err => exact ingesting_act (.log n ⟨message, some err⟩) trivial

theorem register_keeps {header body : String}
    (h : Record w met book_id (Ingestion.book_metadata w.rules book_id header body)) :
    Obeys (ingesting w met) (Ingestion.register w.rules n book_id header body) () fun _ _ => True := by
  refine (ingesting_act (.books_put n book_id _) h).bind fun stored _ _ => ?_
  refine (log_error_keeps n _ stored).bind fun _ _ _ => ?_
  refine (ingesting_act (.submit n (Search.index_task book_id)) trivial).bind fun submitted _ _ => ?_
  exact (log_error_keeps n _ submitted).bind fun _ _ _ => Obeys.pure trivial

theorem handle_ingest_gutenberg_keeps (hbegan : Began met (.ingest n book_id)) :
    Obeys (ingesting w met) (Ingestion.handle_ingest_gutenberg w.rules n book_id) () fun _ _ => True := by
  refine (ingesting_act (.datalake_get n book_id) trivial).bind fun found _ _ => ?_
  cases found with
  | some doc => exact Obeys.pure trivial
  | none =>
    refine Obeys.bind
      (Q := fun (fetched : Result String) _ => ∀ text, fetched = .ok text → w.download (Ingestion.source_url book_id) text)
      (Obeys.perform trivial fun _ hfetched => hfetched) fun fetched _ hfetched => ?_
    cases fetched with
    | error err =>
      exact (ingesting_act (.log n ⟨Ingestion.download_failed book_id, some err⟩) trivial).bind fun _ _ _ =>
        Obeys.pure trivial
    | ok text =>
      have hdownload := hfetched text rfl
      dsimp only
      split
      · exact Obeys.pure trivial
      · exact (ingesting_act (.log n ⟨Ingestion.split_failed book_id, none⟩) trivial).bind fun _ _ _ => Obeys.pure trivial
      · rename_i header body hsplit
        refine (ingesting_act (.datalake_put n book_id _) (.ingested hbegan hdownload hsplit)).bind fun stored _ _ => ?_
        cases stored with
        | error err =>
          exact (ingesting_act (.log n ⟨Ingestion.datalake_failed book_id, some err⟩) trivial).bind fun _ _ _ =>
            Obeys.pure trivial
        | ok u => exact (register_keeps (.ingested hbegan hdownload hsplit)).bind fun _ _ _ => Obeys.pure trivial

theorem handle_ingest_status_keeps (n : NodeId) (book_id : String) :
    Obeys (ingesting w met) (Ingestion.handle_ingest_status n book_id) () fun _ _ => True :=
  (ingesting_act (.datalake_get n book_id) trivial).bind fun _ _ _ => Obeys.pure trivial

def creating (w : World) (met : Met) : Discipline Search.CreateI Unit where
  may _
    | .books_put _ book_id metadata => Record w met book_id metadata
    | _ => True
  gives _ _ _ := True
  next _ _ _ := ()

theorem create_op_keeps (e : Search.CreateAct) (g : Unit) (h : (creating w met).may g e) :
    Obeys (sound w cfg met) (create_op w cfg e) g fun x g' =>
      (creating w met).gives g e x ∧ g' = (creating w met).next g e x := by
  cases e with
  | new_uuid n => exact (outside_keeps (.new_uuid n)).mono fun _ _ _ => ⟨trivial, rfl⟩
  | books_put n book_id metadata => exact (in_books_keeps (put_vouches h)).mono fun _ _ _ => ⟨trivial, rfl⟩
  | submit n task => exact (in_queue_keeps _).mono fun _ _ _ => ⟨trivial, rfl⟩
  | log n line => exact (outside_keeps (.log n line)).mono fun _ _ _ => ⟨trivial, rfl⟩

theorem creating_act (e : Search.CreateAct) (h : (creating w met).may () e) :
    Obeys (creating w met) (perform (I := Search.CreateI) e) () fun _ _ => True :=
  Obeys.perform h fun _ _ => trivial

theorem handle_create_book_keeps {req : Search.CreateBookRequest} (hbegan : Began met (.create_book n req)) :
    Obeys (creating w met) (Search.handle_create_book n req) () fun _ _ => True := by
  refine (creating_act (.new_uuid n) trivial).bind fun book_id _ _ => ?_
  refine (creating_act (.books_put n book_id _) (.created hbegan)).bind fun stored _ _ => ?_
  cases stored with
  | error e => exact (creating_act (.log n ⟨"Failed to create book", some e⟩) trivial).bind fun _ _ _ => Obeys.pure trivial
  | ok u =>
    refine (creating_act (.log n ⟨"Successfully created book", none⟩) trivial).bind fun _ _ _ => ?_
    refine Obeys.bind (Q := fun _ _ => True) ?_ fun _ _ _ => Obeys.pure trivial
    refine (creating_act (.submit n (Search.index_task book_id)) trivial).bind fun submitted _ _ => ?_
    cases submitted with
    | ok task_id => exact Obeys.pure trivial
    | error e => exact creating_act (.log n ⟨"Failed to submit index task", some e⟩) trivial

/-! ## Searches -/

section Searches

-- whether a program obeys is not a matter of what the query is
attribute [local irreducible] tokenize_query

/-- What a search finds. -/
def finding (w : World) (cfg : MapConfig) (met : Met) : Discipline Search.SearchI Unit where
  may _ _ := True
  gives _
    | .index_get token, found => ∀ book_ids, found = some book_ids → Posting w cfg met token book_ids
    | .books_get book_id, found => ∀ metadata, found = some metadata →
      ∃ k, AskedFor cfg book_id k ∧ RecordKept w met k metadata
    | .iterate entries, x => x.Perm entries
  next _ _ _ := ()

theorem search_op_keeps (n : NodeId) (e : Search.SearchAct) (g : Unit) :
    Obeys (sound w cfg met) (search_op cfg n e) g fun x g' =>
      (finding w cfg met).gives g e x ∧ g' = (finding w cfg met).next g e x := by
  cases e with
  | index_get token => exact (index_get_keeps n token).mono fun _ _ hx => ⟨hx, rfl⟩
  | books_get book_id => exact (in_books_keeps get_vouches).mono fun _ _ hx => ⟨hx, rfl⟩
  | iterate entries => exact (outside_keeps (.iterate_scores entries)).mono fun _ _ hx => ⟨hx, rfl⟩

section Query

variable {tokens : List String}

/-- The book counts for one of the words at least. -/
def Scored (w : World) (cfg : MapConfig) (met : Met) (tokens : List String) (entry : String × Nat) : Prop :=
  0 < entry.2 ∧ ∃ token ∈ tokens, Mentions w cfg met token entry.1

abbrev AllScored (w : World) (cfg : MapConfig) (met : Met) (tokens : List String) (book_scores : DashMap String Nat) :
    Prop :=
  ∀ book_id score, book_scores.lookup book_id = some score → Scored w cfg met tokens (book_id, score)

theorem scored_add {book_scores : DashMap String Nat} (h : AllScored w cfg met tokens book_scores) (htoken : token ∈ tokens)
    (hmentions : Mentions w cfg met token book_id) : AllScored w cfg met tokens (Search.add_score book_scores book_id) := by
  have hnew : ∀ score, 0 < score → AllScored w cfg met tokens (book_scores.insert book_id score) := by
    intro score hpos id s hs
    rw [DashMap.lookup_insert_eq] at hs
    split at hs
    · rename_i hid
      cases hs
      subst hid
      exact ⟨hpos, token, htoken, hmentions⟩
    · exact h id s hs
  unfold Search.add_score
  split <;> exact hnew _ (by omega)

theorem scored_foldl {book_ids : List String} (htoken : token ∈ tokens) (hposting : Posting w cfg met token book_ids)
    {book_scores : DashMap String Nat} (h : AllScored w cfg met tokens book_scores) :
    AllScored w cfg met tokens (book_ids.foldl Search.add_score book_scores) := by
  induction book_ids generalizing book_scores with
  | nil => exact h
  | cons id ids ih =>
    exact ih (fun id' hid' => hposting id' (List.mem_cons_of_mem _ hid'))
      (scored_add h htoken (hposting id List.mem_cons_self))

theorem score_tokens_keeps {left : List String} (hleft : ∀ token ∈ left, token ∈ tokens) {book_scores : DashMap String Nat}
    (h : AllScored w cfg met tokens book_scores) :
    Obeys (finding w cfg met) (Search.score_tokens book_scores left) () fun r _ => AllScored w cfg met tokens r := by
  induction left generalizing book_scores with
  | nil => exact Obeys.pure h
  | cons token left ih =>
    have hrest : ∀ t ∈ left, t ∈ tokens := fun t ht => hleft t (List.mem_cons_of_mem _ ht)
    refine Obeys.bind (Q := fun found _ => ∀ book_ids, found = some book_ids → Posting w cfg met token book_ids)
      (Obeys.perform trivial fun _ hfound => hfound) fun found _ hfound => ?_
    cases found with
    | none => exact ih hrest h
    | some book_ids => exact ih hrest (scored_foldl (hleft token List.mem_cons_self) (hfound book_ids rfl) h)

/-- The record is that of a book that counts. -/
def Hydrated (w : World) (cfg : MapConfig) (met : Met) (tokens : List String) (result : BookMetadata × Nat) : Prop :=
  ∃ book_id k, Scored w cfg met tokens (book_id, result.2) ∧ AskedFor cfg book_id k ∧ RecordKept w met k result.1

theorem hydrate_keeps {entries : List (String × Nat)} (h : ∀ entry ∈ entries, Scored w cfg met tokens entry) :
    Obeys (finding w cfg met) (Search.hydrate entries) () fun results _ =>
      ∀ result ∈ results, Hydrated w cfg met tokens result := by
  induction entries with
  | nil => exact Obeys.pure (by simp)
  | cons entry entries ih =>
    obtain ⟨book_id, score⟩ := entry
    have hrest := ih fun entry hentry => h entry (List.mem_cons_of_mem _ hentry)
    refine Obeys.bind
      (Q := fun found _ => ∀ metadata, found = some metadata → ∃ k, AskedFor cfg book_id k ∧ RecordKept w met k metadata)
      (Obeys.perform trivial fun _ hfound => hfound) fun found _ hfound => ?_
    cases found with
    | none => exact hrest
    | some metadata =>
      obtain ⟨k, hasked, hrecord⟩ := hfound metadata rfl
      refine hrest.bind fun results _ hresults => Obeys.pure fun result hresult => ?_
      rcases List.mem_cons.1 hresult with rfl | hresult
      · exact ⟨book_id, k, h _ List.mem_cons_self, hasked, hrecord⟩
      · exact hresults result hresult

/-- The item shows the record of a book that a document backs, for a word of the query. -/
def Backed (w : World) (cfg : MapConfig) (met : Met) (query : String) (item : Search.SearchResultItem) : Prop :=
  ∃ metadata, item = Search.result_item (metadata, item.score) ∧
    Hydrated w cfg met (tokenize_query w.rules.toUnicode query) (metadata, item.score)

theorem handle_search_keeps (params : Search.SearchParams) :
    Obeys (finding w cfg met) (Search.handle_search w.rules.toUnicode params) () fun response _ =>
      ∀ item ∈ response.results, Backed w cfg met params.q item := by
  have hnone : AllScored w cfg met (tokenize_query w.rules.toUnicode params.q) ∅ := fun _ _ h => by cases h
  have hsearch : Obeys (finding w cfg met) (Search.search w.rules.toUnicode params.q) () fun results _ =>
      ∀ result ∈ results, Hydrated w cfg met (tokenize_query w.rules.toUnicode params.q) result := by
    unfold Search.search
    refine (score_tokens_keeps (fun _ h => h) hnone).bind fun book_scores _ hscores => ?_
    refine Obeys.bind (Q := fun entries _ => entries.Perm book_scores.iter)
      (Obeys.perform trivial fun _ hperm => hperm) fun entries _ hperm => ?_
    have hentries : ∀ entry ∈ entries, Scored w cfg met (tokenize_query w.rules.toUnicode params.q) entry :=
      fun entry hentry => hscores entry.1 entry.2 (DashMap.mem_iter.1 (hperm.mem_iff.1 hentry))
    refine (hydrate_keeps hentries).bind fun results _ hresults => Obeys.pure fun result hresult => ?_
    exact hresults result ((List.mergeSort_perm _ _).mem_iff.1 hresult)
  refine hsearch.bind fun results _ hresults => Obeys.pure fun item hitem => ?_
  obtain ⟨⟨metadata, score⟩, hresult, rfl⟩ := List.mem_map.1 (List.mem_of_mem_drop (List.mem_of_mem_take hitem))
  exact ⟨metadata, rfl, hresults _ hresult⟩

end Query

/-! ## Every run -/

/-- Clients write no lists into the index themselves. -/
def Job.Unlisted : Job → Prop
  | .index job => ∀ token book_ids, ¬ job.Puts token book_ids
  | _ => True

structure Sound (w : World) (cfg : MapConfig) (met : Met) (s : State) : Prop where
  books : VouchedFor (Record w met) s.books
  datalake : VouchedFor (Document w met) s.datalake
  index : VouchedFor (Posting w cfg met) s.index_map

variable {s s' : State}

theorem sound_act (h : Sound w cfg met s) (hmet : ∃ l, (s, l) ∈ met) {e : Act} {x : AppI.Ans e}
    (hmay : (sound w cfg met).may () e) (hact : AppSem w cfg net e s x s') :
    (sound w cfg met).gives () e x ∧ Sound w cfg met s' := by
  obtain ⟨l, hmet⟩ := hmet
  cases e with
  | books e =>
    obtain ⟨b, hact, rfl⟩ := hact
    have hread : ∀ n p k metadata, s.books.stored n p k = some metadata → RecordKept w met k metadata :=
      fun n p k metadata hstored => ⟨h.books.stored n p k metadata hstored, s, l, hmet, n, p, hstored⟩
    obtain ⟨hgives, hb⟩ := vouched_act h.books hread hmay hact
    exact ⟨hgives, hb, h.datalake, h.index⟩
  | datalake e =>
    obtain ⟨d, hact, rfl⟩ := hact
    have hread : ∀ n p k doc, s.datalake.stored n p k = some doc → DocumentKept w met k doc :=
      fun n p k doc hstored => ⟨h.datalake.stored n p k doc hstored, s, l, hmet, n, p, hstored⟩
    obtain ⟨hgives, hd⟩ := vouched_act h.datalake hread hmay hact
    exact ⟨hgives, h.books, hd, h.index⟩
  | index e =>
    obtain ⟨m, hact, rfl⟩ := hact
    obtain ⟨hgives, hm⟩ := vouched_act h.index h.index.stored hmay hact
    exact ⟨hgives, h.books, h.datalake, hm⟩
  | queue e =>
    obtain ⟨q, -, rfl⟩ := hact
    exact ⟨trivial, h.books, h.datalake, h.index⟩
  | outside e =>
    obtain ⟨hx, rfl⟩ := hact
    refine ⟨hx, ?_⟩
    cases e <;> exact ⟨h.books, h.datalake, h.index⟩

theorem unattended_keeps {p : AppM α} {Q : α → Prop} {Q' : Option Search.SearchResponse → Prop} (h : Keeps w cfg met p Q)
    (hnone : Q' none) : Keeps w cfg met (unattended p) Q' :=
  h.bind fun _ _ _ => Obeys.pure hnone

/-- A search answers with items that are backed. -/
def Answered (w : World) (cfg : MapConfig) (met : Met) : Job → Option Search.SearchResponse → Prop
  | .search _ params, some response => ∀ item ∈ response.results, Backed w cfg met params.q item
  | _, _ => True

theorem answered_none (job : Job) : Answered w cfg met job none := by
  cases job <;> trivial

theorem searching_keeps (n : NodeId) (params : Search.SearchParams) :
    Keeps w cfg met (searching w cfg n params) (Answered w cfg met (.search n params)) := by
  have hanswer : Keeps w cfg met (expand (search_op cfg n) (Search.handle_search w.rules.toUnicode params)) fun response =>
      ∀ item ∈ response.results, Backed w cfg met params.q item :=
    Obeys.expand (E := finding w cfg met) (fun e g _ => search_op_keeps n e g) (handle_search_keeps params)
  unfold searching
  refine hanswer.bind fun response _ hbacked => Obeys.pure ?_
  exact hbacked

theorem started_keeps {job : Job} {p : AppM (Option Search.SearchResponse)} (h : Started w cfg s job p) (hjob : job.Unlisted)
    (hbegan : Began met job) (hs : Sound w cfg met s) : Keeps w cfg met p (Answered w cfg met job) := by
  cases h with
  | @books job _ hstart =>
    have hvouched : job.Vouched (Record w met) := job.vouched_puts.mono fun _ _ => .put hbegan
    have hvouches := started_vouches (R := RecordKept w met) hstart (fun _ _ h => h.1) hvouched hs.books.sent
    exact unattended_keeps (in_books_keeps hvouches) (answered_none _)
  | @datalake job _ hstart =>
    have hvouched : job.Vouched (Document w met) := job.vouched_puts.mono fun _ _ => .put hbegan
    have hvouches := started_vouches (R := DocumentKept w met) hstart (fun _ _ h => h.1) hvouched hs.datalake.sent
    exact unattended_keeps (in_datalake_keeps hvouches) (answered_none _)
  | @index job _ hstart =>
    have hvouched : job.Vouched (Posting w cfg met) := job.vouched_puts.mono fun _ _ hput => absurd hput (hjob _ _)
    have hvouches := started_vouches (R := Posting w cfg met) hstart (fun _ _ h => h) hvouched hs.index.sent
    exact unattended_keeps (in_index_keeps hvouches) (answered_none _)
  | queue hstart => exact unattended_keeps (in_queue_keeps _) (answered_none _)
  | ingest n book_id =>
    have hkeeps : Obeys (ingesting w met) _ () _ := handle_ingest_gutenberg_keeps hbegan
    exact unattended_keeps (hkeeps.expand ingest_op_keeps) (answered_none _)
  | ingest_status n book_id =>
    have hkeeps : Obeys (ingesting w met) _ () _ := handle_ingest_status_keeps n book_id
    exact unattended_keeps (hkeeps.expand ingest_op_keeps) (answered_none _)
  | create_book n req =>
    have hkeeps : Obeys (creating w met) _ () _ := handle_create_book_keeps hbegan
    exact unattended_keeps (hkeeps.expand create_op_keeps) (answered_none _)
  | search n params => exact searching_keeps n params

end Searches

/-- Whatever ran before and runs beside it, a search shows only records that were put
and kept in the run, for books of which a document that was put and kept in the run
contains a word of the query. -/
theorem search_backed {view : NodeId → MembershipService} {clock : NodeId → Nat} {l : AppPool} {params : Search.SearchParams}
    {response : Search.SearchResponse} (run : Run w cfg net Job.Unlisted (.empty view clock, []) (s, l))
    (hdone : (Job.search n params, Async.done (some response)) ∈ l) :
    ∀ item ∈ response.results, Backed w cfg run.met params.q item := by
  have hempty : Sound w cfg run.met (.empty view clock) := ⟨vouched_empty view, vouched_empty view, vouched_empty view⟩
  have htracked : Pool.Tracked (fun _ => sound w cfg run.met) (fun s _ => Sound w cfg run.met s)
      (fun job answer _ => Answered w cfg run.met job answer) (s, l) := by
    refine Pool.tracked_steps (fun _ _ _ _ _ _ _ hinv hmay hact => sound_act hinv hact.2 hmay hact.1) (fun _ _ _ hinv => hinv)
      (fun s l job p hpool hstart => ?_) (fun _ _ _ _ hinv henv => ?_) run.steps (Pool.tracked_nil hempty)
    · obtain ⟨_, hinv⟩ := hpool.inv
      obtain ⟨⟨hstart, hjob⟩, hmet⟩ := hstart
      have hbegan : Began run.met job := ⟨s, (job, p) :: l, p, hmet, List.mem_cons_self⟩
      exact hpool.join (started_keeps hstart hjob hbegan hinv) fun _ hinv => hinv
    · cases henv with
      | membership view =>
        exact ⟨⟨hinv.books.stored, hinv.books.sent⟩, ⟨hinv.datalake.stored, hinv.datalake.sent⟩,
          ⟨hinv.index.stored, hinv.index.sent⟩⟩
      | beside _ => exact ⟨hinv.books, hinv.datalake, hinv.index⟩
  obtain ⟨tracked, rfl, hobeys, -⟩ := htracked
  obtain ⟨⟨⟨job, p⟩, g⟩, hmem, heq⟩ := List.mem_map.1 hdone
  cases heq
  exact hobeys _ hmem

end

section Example

open CompactJson

/-- The other server sends one book. -/
def library : World := ⟨.ascii, fun _ text => text = Ingestion.sample_text⟩

def library_answers : (e : OutsideAct) → OutsideI.Ans e
  | .fetch _ _ => .ok Ingestion.sample_text
  | .log .. => ()
  | .new_uuid _ => "1"
  | .report (.ok _) => .ok ()
  | .report (.error (.anyhow text)) => .error text
  | .report (.error .request) => .error ""
  | .iterate_texts set => set
  | .iterate_scores entries => entries

theorem library_outside (e : OutsideAct) : OutsideSem library e (library_answers e) := by
  cases e with
  | fetch n url =>
    intro text h
    cases h
    rfl
  | report r =>
    rcases r with (_ | text) | u
    · exact ⟨"", rfl⟩
    · rfl
    · rfl
  | iterate_texts set => exact .refl set
  | iterate_scores entries => exact .refl entries
  | _ => trivial

def nothing_kept : State := .empty (demo_view Executor.solo) fun _ => 0

def run (p : AppM (Option Search.SearchResponse)) (s : State) : Option Search.SearchResponse × State :=
  exec (AppInt Executor.solo_cfg library_answers) p s

/-- One node takes the book in. -/
def taken_in : Option Search.SearchResponse × State :=
  run (unattended (expand (ingest_op library Executor.solo_cfg) (Ingestion.handle_ingest_gutenberg .ascii node_a "158")))
    nothing_kept

/-- Its worker runs the task. -/
def listed : Option Search.SearchResponse × State :=
  run (unattended (in_queue library Executor.solo_cfg (Executor.unattended (Executor.worker_loop Executor.solo_cfg node_a))))
    taken_in.2

def found : Option Search.SearchResponse × State :=
  run (searching library Executor.solo_cfg node_a ⟨"emma", none, none⟩) listed.2

theorem found_results : found.1.map Search.SearchResponse.results = some [⟨"158", "Emma", "Unknown", 1⟩] := by decide +kernel

theorem steps_run {s : State} {l : AppPool} {job : Job} {p : AppM (Option Search.SearchResponse)}
    (h : Steps library Executor.solo_cfg .reliable Job.Unlisted (nothing_kept, []) (s, l))
    (hstart : Started library Executor.solo_cfg s job p) (hjob : job.Unlisted) :
    Steps library Executor.solo_cfg .reliable Job.Unlisted (nothing_kept, [])
      ((run p s).2, (job, .done (run p s).1) :: l) :=
  steps_alone library_outside h hstart hjob

theorem steps_found : ∃ l, Steps library Executor.solo_cfg .reliable Job.Unlisted (nothing_kept, [])
    (found.2, (.search node_a ⟨"emma", none, none⟩, .done found.1) :: l) :=
  have htaken := steps_run .refl (.ingest node_a "158") trivial
  have hlisted := steps_run (s := taken_in.2) htaken (.queue (.worker node_a)) trivial
  ⟨_, steps_run (s := listed.2) hlisted (.search node_a ⟨"emma", none, none⟩) trivial⟩

theorem search_backed_emma : found.1.map Search.SearchResponse.results = some [⟨"158", "Emma", "Unknown", 1⟩] ∧
    ∃ (l : AppPool) (run : Run library Executor.solo_cfg .reliable Job.Unlisted (nothing_kept, []) (found.2, l)),
      Backed library Executor.solo_cfg run.met "emma" ⟨"158", "Emma", "Unknown", 1⟩ := by
  obtain ⟨response, hresponse, hitems⟩ := Option.map_eq_some_iff.1 found_results
  obtain ⟨l, hsteps⟩ := steps_found
  obtain ⟨run⟩ := Pool.exists_run hsteps
  have hdone : (Job.search node_a ⟨"emma", none, none⟩, Async.done (some response)) ∈
      (.search node_a ⟨"emma", none, none⟩, .done found.1) :: l := by
    rw [hresponse]
    exact List.mem_cons_self
  have hitem : (⟨"158", "Emma", "Unknown", 1⟩ : Search.SearchResultItem) ∈ response.results := by simp [hitems]
  exact ⟨found_results, _, run, search_backed run hdone _ hitem⟩

end Example

end App
