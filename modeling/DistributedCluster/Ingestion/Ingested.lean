import DistributedCluster.Executor.Acceptance
import DistributedCluster.Ingestion.Handlers
import DistributedCluster.Storage.Effects
import DistributedCluster.Storage.Read
/-!
# What a successful answer means

The answer tells of the download and the datalake only: a book that the other two
do not get is in the log. A call that finds a document trusts the call that stored
it, also if that one failed.
-/

namespace Ingestion

open Async Executor DistributedMap

variable {cfg : MapConfig} {net : Network} {rules : TextRules} {book_id : String} {n : NodeId} {s s' : IngestState}

section

variable [Serde]

/-- Some node has a document of the book. -/
def Stored (cfg : MapConfig) (book_id : String) (s : IngestState) : Prop :=
  ∃ m doc, s.datalake.stored m (cfg.partition_of book_id) book_id = some doc

/-- Some node has metadata of the book. -/
def Registered (cfg : MapConfig) (book_id : String) (s : IngestState) : Prop :=
  ∃ m metadata, s.books.stored m (cfg.partition_of book_id) book_id = some metadata

/-- Some node has a task that indexes the book. -/
def Scheduled (cfg : MapConfig) (book_id : String) (s : IngestState) : Prop :=
  ∃ m id entry, s.queue.task m (Executor.partition_of cfg id) id = some entry ∧ entry.task = Search.index_task book_id

/-- One of the lines reports such an error. -/
def Logged (message : String) (lines : List LogLine) : Prop := ∃ err, (⟨message, some err⟩ : LogLine) ∈ lines

omit [Serde] in
theorem Logged.append {message : String} {lines more : List LogLine} (h : Logged message lines) :
    Logged message (lines ++ more) := by
  obtain ⟨err, herr⟩ := h
  exact ⟨err, List.mem_append_left _ herr⟩

omit [Serde] in
theorem Logged.after {message : String} {lines more : List LogLine} (h : Logged message more) :
    Logged message (lines ++ more) := by
  obtain ⟨err, herr⟩ := h
  exact ⟨err, List.mem_append_right _ herr⟩

/-- Requests that a node sends to another arrive there, if they arrive. -/
def AllRouted (cfg : MapConfig) (view : NodeId → MembershipService) : Prop := ∀ n m, m ≠ n → Routed cfg view n m

/-- The book is registered and scheduled, or an error of this or an earlier call is
in the log. -/
structure Accounted (cfg : MapConfig) (book_id : String) (s : IngestState) : Prop where
  registered : Registered cfg book_id s ∨ Logged (metadata_failed book_id) s.log ∨ Logged (datalake_failed book_id) s.log
  scheduled : Scheduled cfg book_id s ∨ Logged (submit_failed book_id) s.log ∨ Logged (datalake_failed book_id) s.log

/-- What holds between the calls for a book. -/
structure Tracks (cfg : MapConfig) (net : Network) (book_id : String) (s : IngestState) : Prop where
  routed : AllRouted cfg s.datalake.view
  routed_books : AllRouted cfg s.books.view
  queue : Reachable cfg net s.queue
  unread : ¬ UrlSafe cfg book_id → ∀ m, answer cfg s.datalake book_id m = none
  accounted : Stored cfg book_id s → Accounted cfg book_id s

/-- A document that can be read is stored. -/
theorem Tracks.stored (h : Tracks cfg net book_id s) {doc : RawDocument}
    (hread : s.datalake.stored n (cfg.partition_of book_id) book_id = some doc ∨
      ∃ m, answer cfg s.datalake book_id m = some doc) :
    Stored cfg book_id s := by
  rcases hread with hlocal | ⟨m, hanswer⟩
  · exact ⟨n, doc, hlocal⟩
  · by_cases hsafe : UrlSafe cfg book_id
    · rw [answer_of_urlSafe hsafe] at hanswer
      exact ⟨m, doc, hanswer⟩
    · rw [h.unread hsafe m] at hanswer
      cases hanswer

/-- A key that is lost on the way is read where other keys are. -/
theorem answer_of_touched {d d' : MapCluster String RawDocument} {doc : RawDocument} (hsafe : ¬ UrlSafe cfg book_id)
    (h : Touched (cfg.partition_of book_id) book_id doc d d') (m : NodeId) :
    answer cfg d' book_id m = answer cfg d book_id m := by
  simp only [answer, get_response]
  cases hroute : cfg.route (Key.to_string book_id) with
  | error status => rfl
  | ok text =>
    dsimp only
    cases hparse : (Key.from_str text : Except String String) with
    | error e => rfl
    | ok key =>
      have hkey : key ≠ book_id := fun he => hsafe ⟨text, hroute, he ▸ hparse⟩
      have hsame : d'.stored m (cfg.partition_of key) key = d.stored m (cfg.partition_of key) key :=
        (h.stored m _ key).resolve_right fun hnew => hkey hnew.2.1
      dsimp only
      rw [hsame]

/-! ## One call -/

/-- What a call that stored the document leaves: the line of an error stands for what
is missing. -/
structure Ingests (cfg : MapConfig) (rules : TextRules) (n : NodeId) (book_id header body : String)
    (s s' : IngestState) : Prop where
  document :
    s'.datalake.stored (primary_for cfg s.datalake.view n (cfg.partition_of book_id)) (cfg.partition_of book_id) book_id =
      some (raw_document book_id header body)
  errors : ∃ lines, s'.log = s.log ++ lines ∧
    (s'.books.stored (primary_for cfg s.books.view n (cfg.partition_of book_id)) (cfg.partition_of book_id) book_id =
      some (book_metadata rules book_id header body) ∨ Logged (metadata_failed book_id) lines) ∧
    (Scheduled cfg book_id s' ∨ Logged (submit_failed book_id) lines)

theorem Ingests.accounted {header body : String} (h : Ingests cfg rules n book_id header body s s') :
    Accounted cfg book_id s' := by
  obtain ⟨lines, hlog, hbooks, hqueue⟩ := h.errors
  constructor
  · rcases hbooks with hstored | hlogged
    · exact .inl ⟨_, _, hstored⟩
    · exact .inr (.inl (hlog ▸ hlogged.after))
  · rcases hqueue with hscheduled | hlogged
    · exact .inl hscheduled
    · exact .inr (.inl (hlog ▸ hlogged.after))

/-- The log after an operation that may have failed. -/
theorem runs_log_error {α : Type} {r : Result α} {message : String} {u : Unit}
    (h : Runs (IngestSem cfg net) Eq (log_error n message r) s u s') :
    ∃ lines, s' = { s with log := s.log ++ lines } ∧ ((∃ x, r = .ok x) ∨ Logged message lines) := by
  cases r with
  | ok x =>
    obtain ⟨-, rfl⟩ := runs_pure.1 h
    exact ⟨[], by simp, .inl ⟨x, rfl⟩⟩
  | error err =>
    obtain rfl : s' = { s with log := s.log ++ [⟨message, some err⟩] } := runs_perform.1 h
    exact ⟨_, rfl, .inr ⟨err, List.mem_singleton.2 rfl⟩⟩

/-- What is left to do once the document is stored is done, or its failure is logged. -/
theorem runs_register {header body : String} {answer : IngestAnswer} (hrouted : AllRouted cfg s.books.view)
    (hreach : Reachable cfg net s.queue) (h : Runs (IngestSem cfg net) Eq (register rules n book_id header body) s answer s') :
    answer.1 = .ACCEPTED ∧ s'.datalake = s.datalake ∧ s'.books.view = s.books.view ∧ Reachable cfg net s'.queue ∧
      ∃ lines, s'.log = s.log ++ lines ∧
        (s'.books.stored (primary_for cfg s.books.view n (cfg.partition_of book_id)) (cfg.partition_of book_id) book_id =
          some (book_metadata rules book_id header body) ∨ Logged (metadata_failed book_id) lines) ∧
        (Scheduled cfg book_id s' ∨ Logged (submit_failed book_id) lines) := by
  obtain ⟨r, s₁, hput, hrest⟩ := runs_bind.1 h
  obtain ⟨books, hbooks, rfl⟩ := runs_perform.1 hput
  obtain ⟨_, s₂, hlog, hrest⟩ := runs_bind.1 hrest
  obtain ⟨lines, rfl, hregistered⟩ := runs_log_error hlog
  obtain ⟨r', s₃, hsubmit, hrest⟩ := runs_bind.1 hrest
  obtain ⟨queue, hqueue, rfl⟩ := runs_perform.1 hsubmit
  obtain ⟨_, s₄, hlog', hrest⟩ := runs_bind.1 hrest
  obtain ⟨lines', rfl, hscheduled⟩ := runs_log_error hlog'
  obtain ⟨rfl, rfl⟩ := runs_pure.1 hrest
  refine ⟨rfl, rfl, (touched_of_put hbooks).view, reachable_of_submit hreach hqueue, lines ++ lines', by simp, ?_, ?_⟩
  · rcases hregistered with ⟨u, rfl⟩ | hlogged
    · exact .inl (stored_of_put (fun hne => hrouted n _ hne) hbooks)
    · exact .inr hlogged.append
  · rcases hscheduled with ⟨id, rfl⟩ | hlogged
    · obtain ⟨m, entry, hentry, htask⟩ := entry_of_submit hreach hqueue
      exact .inl ⟨m, id, entry, hentry, htask⟩
    · exact .inr hlogged.after

/-- A call that stores nothing: the datalake is only read, and the log goes on. -/
theorem Tracks.idle (h : Tracks cfg net book_id s) {datalake : MapCluster String RawDocument}
    (hdata : SameData s.datalake datalake) (lines : List LogLine) : Tracks cfg net book_id { s with datalake, log := s.log ++ lines } := by
  refine ⟨hdata.view ▸ h.routed, h.routed_books, h.queue, fun hsafe m => (hdata.answer book_id m).trans (h.unread hsafe m), ?_⟩
  rintro ⟨m, doc, hdoc⟩
  obtain ⟨hregistered, hscheduled⟩ := h.accounted ⟨m, doc, (hdata.stored m _ _).symm.trans hdoc⟩
  constructor
  · rcases hregistered with hheld | hlogged | hlogged
    · exact .inl hheld
    · exact .inr (.inl hlogged.append)
    · exact .inr (.inr hlogged.append)
  · rcases hscheduled with hheld | hlogged | hlogged
    · exact .inl hheld
    · exact .inr (.inl hlogged.append)
    · exact .inr (.inr hlogged.append)

/-- What the answer of a call promises. -/
def Promises (cfg : MapConfig) (rules : TextRules) (n : NodeId) (book_id : String) (s s' : IngestState)
    (answer : IngestAnswer) : Prop :=
  (answer.1 = .ACCEPTED → ∃ header body, Ingests cfg rules n book_id header body s s') ∧
    (answer.1 = .OK → Stored cfg book_id s' ∧ Accounted cfg book_id s')

theorem runs_handle_ingest {response : Option IngestAnswer} (hs : Tracks cfg net book_id s)
    (h : Runs (IngestSem cfg net) Eq (handle_ingest_gutenberg rules n book_id) s response s') :
    Tracks cfg net book_id s' ∧ ∀ a, response = some a → Promises cfg rules n book_id s s' a := by
  have refused : ∀ {code : StatusCode} {status : String} {s s' : IngestState}, code ≠ .ACCEPTED → code ≠ .OK →
      ∀ a, some (respond book_id code status) = some a → Promises cfg rules n book_id s s' a := by
    intro code status s s' haccepted hok a ha
    cases ha
    exact ⟨fun hcode => absurd hcode haccepted, fun hcode => absurd hcode hok⟩
  obtain ⟨found, s₁, hget, hrest⟩ := runs_bind.1 h
  obtain ⟨datalake, hread, rfl⟩ := runs_perform.1 hget
  obtain ⟨hvalue, hdata⟩ := got hread
  have hidle : ∀ lines, Tracks cfg net book_id { s with datalake, log := s.log ++ lines } := hs.idle hdata
  have hread' : Tracks cfg net book_id { s with datalake } := by simpa using hidle []
  cases found with
  | some doc =>
    obtain ⟨rfl, rfl⟩ := runs_pure.1 hrest
    refine ⟨hread', fun a ha => ?_⟩
    cases ha
    obtain ⟨m, doc', hstored⟩ := hs.stored (hvalue doc rfl)
    have hkept : Stored cfg book_id { s with datalake } := ⟨m, doc', (hdata.stored m _ _).trans hstored⟩
    exact ⟨fun hcode => (by cases hcode), fun _ => ⟨hkept, hread'.accounted hkept⟩⟩
  | none =>
    obtain ⟨download, s₂, hfetch, hrest⟩ := runs_bind.1 hrest
    obtain rfl : s₂ = { s with datalake } := runs_perform.1 hfetch
    cases download with
    | error err =>
      obtain ⟨_, s₃, hlog, hend⟩ := runs_bind.1 hrest
      obtain rfl := runs_perform.1 hlog
      obtain ⟨rfl, rfl⟩ := runs_pure.1 hend
      exact ⟨hidle _, refused (by decide) (by decide)⟩
    | ok text =>
      dsimp only at hrest
      split at hrest
      · obtain ⟨rfl, rfl⟩ := runs_pure.1 hrest
        exact ⟨hread', fun a ha => by cases ha⟩
      · obtain ⟨_, s₃, hlog, hend⟩ := runs_bind.1 hrest
        obtain rfl := runs_perform.1 hlog
        obtain ⟨rfl, rfl⟩ := runs_pure.1 hend
        exact ⟨hidle _, refused (by decide) (by decide)⟩
      · rename_i header body _
        obtain ⟨r, s₃, hput, hrest⟩ := runs_bind.1 hrest
        obtain ⟨datalake', hwrite, rfl⟩ := runs_perform.1 hput
        have htouched := touched_of_put hwrite
        have hrouted : AllRouted cfg datalake'.view := htouched.view ▸ hread'.routed
        have hunread : ¬ UrlSafe cfg book_id → ∀ m, answer cfg datalake' book_id m = none := fun hsafe m =>
          (answer_of_touched hsafe htouched m).trans (hread'.unread hsafe m)
        cases r with
        | error err =>
          obtain ⟨_, s₄, hlog, hend⟩ := runs_bind.1 hrest
          obtain rfl := runs_perform.1 hlog
          obtain ⟨rfl, rfl⟩ := runs_pure.1 hend
          -- the document may be stored all the same
          have hlogged : Logged (datalake_failed book_id) (s.log ++ [⟨datalake_failed book_id, some err⟩]) :=
            ⟨err, List.mem_append_right _ (List.mem_singleton.2 rfl)⟩
          exact ⟨⟨hrouted, hs.routed_books, hs.queue, hunread, fun _ => ⟨.inr (.inr hlogged), .inr (.inr hlogged)⟩⟩,
            refused (by decide) (by decide)⟩
        | ok u =>
          obtain ⟨answer, s₄, hregister, hend⟩ := runs_bind.1 hrest
          obtain ⟨rfl, rfl⟩ := runs_pure.1 hend
          obtain ⟨hcode, hsame, hview, hreach, lines, hlog, hbooks, hqueue⟩ :=
            runs_register (s := { s with datalake := datalake' }) hs.routed_books hs.queue hregister
          have hdocument := stored_of_put (fun hne => hread'.routed n _ hne) hwrite
          have hingests : Ingests cfg rules n book_id header body s s₄ := by
            refine ⟨?_, lines, hlog, hbooks, hqueue⟩
            rw [hsame, ← hdata.view]
            exact hdocument
          refine ⟨⟨hsame ▸ hrouted, hview ▸ hs.routed_books, hreach, hsame ▸ hunread, fun _ => hingests.accounted⟩, ?_⟩
          intro a ha
          cases ha
          exact ⟨fun _ => ⟨header, body, hingests⟩, fun hok => by rw [hcode] at hok; cases hok⟩

/-! ## Calls one after the other -/

/-- Calls for one book, each at some node, and what they answer. -/
inductive Calls (cfg : MapConfig) (net : Network) (rules : TextRules) (book_id : String) :
    IngestState → List (NodeId × Option IngestAnswer) → IngestState → Prop
  | nil (start) : Calls cfg net rules book_id start [] start
  | snoc {start calls mid finish} (node : NodeId) (response : Option IngestAnswer) :
      Calls cfg net rules book_id start calls mid →
      Runs (IngestSem cfg net) Eq (handle_ingest_gutenberg rules node book_id) mid response finish →
      Calls cfg net rules book_id start (calls ++ [(node, response)]) finish

/-- Before the first call: no node has a document of the book, none takes another
one for it, and the log begins. -/
structure Starts (cfg : MapConfig) (net : Network) (book_id : String) (s : IngestState) : Prop where
  routed : AllRouted cfg s.datalake.view
  routed_books : AllRouted cfg s.books.view
  queue : Reachable cfg net s.queue
  absent : ∀ m, s.datalake.stored m (cfg.partition_of book_id) book_id = none ∧ answer cfg s.datalake book_id m = none
  log : s.log = []

theorem Starts.tracks (h : Starts cfg net book_id s) : Tracks cfg net book_id s := by
  refine ⟨h.routed, h.routed_books, h.queue, fun _ m => (h.absent m).2, ?_⟩
  rintro ⟨m, doc, hdoc⟩
  rw [(h.absent m).1] at hdoc
  cases hdoc

theorem tracks_calls {calls : List (NodeId × Option IngestAnswer)} (h : Calls cfg net rules book_id s calls s')
    (hs : Tracks cfg net book_id s) : Tracks cfg net book_id s' := by
  induction h with
  | nil => exact hs
  | snoc node response _ hrun ih => exact (runs_handle_ingest ih hrun).1

/-- After a call that answers 202 the datalake has the document, and if metadata or
task are missing this call has logged why. After one that answers 200 some node has
the document, and if metadata or task are missing some call has logged why. -/
theorem answer_means {calls : List (NodeId × Option IngestAnswer)} {s₁ : IngestState} (hstart : Starts cfg net book_id s)
    (hcalls : Calls cfg net rules book_id s calls s₁) {response : IngestAnswer}
    (hcall : Runs (IngestSem cfg net) Eq (handle_ingest_gutenberg rules n book_id) s₁ (some response) s') :
    Promises cfg rules n book_id s₁ s' response :=
  (runs_handle_ingest (tracks_calls hcalls hstart.tracks) hcall).2 response rfl

end

section Example

open CompactJson

/-- Two nodes, before the first call. -/
def no_books : IngestState := ⟨.empty (demo_view pair), .empty (demo_view pair), .empty (demo_view pair) fun _ => 0, []⟩

theorem routed_pair : AllRouted pair_cfg (demo_view pair) := by
  intro n m _ node hnode m' hm'
  have hm : m ∈ pair.ids := by
    by_contra hm
    have hnone : (demo_view pair n).get_member m = none := (DashMap.lookup_ofKeys pair.ids pair.ids_nodup _ m).trans (if_neg hm)
    rw [hnone] at hnode
    cases hnode
  rw [demo_view, get_member_settled demo_addr n hm] at hnode
  cases hnode
  obtain rfl | rfl : m = node_a ∨ m = node_b := by simpa [pair] using hm
  · exact (Option.some.inj hm').symm
  · exact (Option.some.inj hm').symm

theorem starts_no_books : Starts pair_cfg net "k" no_books := by
  refine ⟨routed_pair, routed_pair, ⟨_, _, [], .refl⟩, fun m => ⟨rfl, ?_⟩, rfl⟩
  rw [answer_of_urlSafe (urlSafe_pair "k")]
  rfl

/-- The server has a text; nobody hears of its metadata. -/
def metadata_lost : Outside where
  fates
    | .books_put .. => all_lost
    | _ => answered pair_cfg
  download _ := .ok sample_text

/-- A call for `"k"`, which belongs to node a. -/
def ingest_at (n : NodeId) (s : IngestState) : Option IngestAnswer × IngestState :=
  exec (IngestInt pair_cfg metadata_lost) (handle_ingest_gutenberg .ascii n "k") s

theorem runs_ingest_at (n : NodeId) (s : IngestState) :
    Runs (IngestSem pair_cfg .lossy) Eq (handle_ingest_gutenberg .ascii n "k") s (ingest_at n s).1 (ingest_at n s).2 := by
  refine exec_runs (IngestInt_sem fun e m addr => ?_) _ _
  cases e with
  | books_put => exact allows_all_lost m addr
  | _ => exact allows_answered .lossy m addr

def accepted : IngestAnswer := respond "k" .ACCEPTED "ingested"
def existing : IngestAnswer := respond "k" .OK "already_exists"

/-- Nothing is written into the map of the books. -/
def NoMetadata : (e : IngestAct) → IngestState → IngestI.Ans e → Prop
  | .books_put n book_id metadata, s, _ =>
    Meets (MapInt all_lost) (fun e _ _ => MapAct.is_store e = false) (DistributedMap.put pair_cfg n book_id metadata) s.books
  | _, _, _ => True

instance : (e : IngestAct) → (s : IngestState) → (x : IngestI.Ans e) → Decidable (NoMetadata e s x)
  | .books_put n book_id metadata, s, _ => inferInstanceAs (Decidable (Meets (MapInt all_lost)
      (fun e _ _ => MapAct.is_store e = false) (DistributedMap.put pair_cfg n book_id metadata) s.books))
  | .datalake_get .., _, _ | .datalake_put .., _, _ | .submit .., _, _ | .fetch .., _, _ | .log .., _, _ => .isTrue trivial

/-- Both calls, evaluated at one go. -/
theorem both_calls : (ingest_at node_b no_books).1 = some accepted ∧
    (ingest_at node_a (ingest_at node_b no_books).2).1 = some existing ∧
    Meets (IngestInt pair_cfg metadata_lost) NoMetadata (handle_ingest_gutenberg .ascii node_b "k") no_books := by
  decide +kernel

theorem first_accepted : (ingest_at node_b no_books).1 = some accepted := both_calls.1

theorem second_existing : (ingest_at node_a (ingest_at node_b no_books).2).1 = some existing := both_calls.2.1

theorem books_exec {α : Type} {p : IngestM α} {s : IngestState} (hp : Meets (IngestInt pair_cfg metadata_lost) NoMetadata p s) :
    (exec (IngestInt pair_cfg metadata_lost) p s).2.books.stored = s.books.stored := by
  refine Meets.keeps (f := fun s : IngestState => s.books.stored) (fun e s he => ?_) hp
  cases e with
  | books_put n book_id metadata => exact stored_exec he
  | _ => rfl

theorem not_registered_first : ¬ Registered pair_cfg "k" (ingest_at node_b no_books).2 := by
  rintro ⟨m, metadata, hstored⟩
  rw [ingest_at, books_exec both_calls.2.2, no_books, MapCluster.stored_empty] at hstored
  cases hstored

theorem answer_means_lost_metadata :
    Promises pair_cfg .ascii node_b "k" no_books (ingest_at node_b no_books).2 accepted ∧
      Promises pair_cfg .ascii node_a "k" (ingest_at node_b no_books).2 (ingest_at node_a (ingest_at node_b no_books).2).2
        existing := by
  have hfirst := runs_ingest_at node_b no_books
  have hsecond := runs_ingest_at node_a (ingest_at node_b no_books).2
  have hcalls : Calls pair_cfg .lossy .ascii "k" no_books [(node_b, some accepted)] (ingest_at node_b no_books).2 :=
    .snoc node_b (some accepted) (.nil no_books) (first_accepted ▸ hfirst)
  rw [first_accepted] at hfirst
  rw [second_existing] at hsecond
  exact ⟨answer_means starts_no_books (.nil no_books) hfirst, answer_means starts_no_books hcalls hsecond⟩

/-- The metadata is lost on the way to node a, and the answer is 202 all the same. -/
theorem accepted_without_metadata :
    ¬ ∀ (cfg : MapConfig) (net : Network) (rules : TextRules) (book_id : String) (s : IngestState)
      (calls : List (NodeId × Option IngestAnswer)) (s₁ : IngestState) (n : NodeId) (response : IngestAnswer) (s' : IngestState),
      Starts cfg net book_id s → Calls cfg net rules book_id s calls s₁ →
      Runs (IngestSem cfg net) Eq (handle_ingest_gutenberg rules n book_id) s₁ (some response) s' →
      response.1 = .ACCEPTED ∨ response.1 = .OK →
      Stored cfg book_id s' ∧ Registered cfg book_id s' ∧ Scheduled cfg book_id s' := by
  intro h
  have hrun := runs_ingest_at node_b no_books
  rw [first_accepted] at hrun
  exact not_registered_first (h pair_cfg .lossy .ascii "k" no_books [] no_books node_b accepted _ starts_no_books (.nil _) hrun
    (.inl rfl)).2.1

end Example

end Ingestion
