import DistributedCluster.Executor.Runs
import DistributedCluster.Search.Exact
/-!
# What a completed task has done

A worker runs the handler of a task and finishes its entry with what the handler
answers. The handler of index tasks answers `Ok` when it finds no document, and
a read finds none when no owner can be reached.
-/

namespace Search

open Async Executor DistributedMap

section

variable [Serde]

/-- The queue, and the maps that the handlers work on. -/
structure WorkerState where
  queue : QueueCluster
  maps : IndexState

/-- `TaskHandlerRegistry::execute`, with the one handler that `main.rs` registers. -/
def execute (unicode : Unicode) (n : NodeId) (task : Task) : IndexM (Result Unit) :=
  match task with
  | .Execute handler _ =>
    if handler = "index_document" then index_document unicode n task
    else pure (.error (.anyhow ("Unknown task handler: " ++ handler)))

/-- `e.to_string()`: the client words its errors itself. -/
def Reported : Result Unit → Except String Unit → Prop
  | .ok _, x => x = .ok ()
  | .error (.anyhow text), x => x = .error text
  | .error .request, x => ∃ text, x = .error text

/-- The queue's actions, where a task is executed by a run of its handler. -/
def WorkerSem (cfg : MapConfig) (net : Network) (unicode : Unicode) : Sem QueueI WorkerState
  | .execute n task, s, x, s' => s'.queue = s.queue ∧ ∃ r result, x = some result ∧ Reported r result ∧
    Runs (IndexSem cfg net) Eq (execute unicode n task) s.maps r s'.maps
  | e, s, x, s' => QueueSem cfg net e s.queue x s'.queue ∧ s'.maps = s.maps

/-- While no other task runs, time passes and leases are renewed. -/
def Meanwhile (cfg : MapConfig) (s s' : WorkerState) : Prop :=
  Relation.ReflTransGen (fun q q' => Beside cfg q [] q') s.queue s'.queue ∧ s'.maps = s.maps

instance (cfg : MapConfig) : IsPreorder WorkerState (Meanwhile cfg) where
  refl _ := ⟨.refl, rfl⟩
  trans _ _ _ h h' := ⟨h.1.trans h'.1, h'.2.trans h.2⟩

/-- The status of the task's entry at node `n`. -/
def status (cfg : MapConfig) (n : NodeId) (task_id : TaskId) (q : QueueCluster) : Option TaskStatus :=
  (q.task n (Executor.partition_of cfg task_id) task_id).map TaskEntry.status

variable {cfg : MapConfig} {net : Network} {unicode : Unicode} {ring : NodeRing NodeId} {n : NodeId} {task_id : TaskId}
  {task : Task} {book_id : String} {doc : RawDocument} {q q' : QueueCluster} {s s' : WorkerState}

/-! ## The entry of the task -/

omit [Serde] in
theorem status_beside {l : QueuePool} (h : Beside cfg q l q') : status cfg n task_id q' = status cfg n task_id q := by
  unfold status
  cases h with
  | tick clock => rfl
  | @renewal m id _ =>
    rcases (renewal_round_entry cfg q m id).2.2.2 n (Executor.partition_of cfg task_id) task_id with
      hsame | ⟨entry, lease, hold, -, hnew⟩
    · rw [hsame]
    · rw [hnew, hold]
      rfl

omit [Serde] in
theorem status_meanwhile (h : Meanwhile cfg s s') : status cfg n task_id s'.queue = status cfg n task_id s.queue := by
  have hsteps : ∀ q', Relation.ReflTransGen (fun q q' => Beside cfg q [] q') s.queue q' →
      status cfg n task_id q' = status cfg n task_id s.queue := by
    intro q' h
    induction h with
    | refl => rfl
    | tail _ hbeside ih => exact (status_beside hbeside).trans ih
  exact hsteps _ h.1

omit [Serde] in
theorem status_complete {result : Except String Unit} {entry : TaskStatus} (h : status cfg n task_id q = some entry) :
    status cfg n task_id (q.complete n (Executor.partition_of cfg task_id) task_id result).2 =
      some (QueueCluster.finished result) := by
  obtain ⟨e, he, -⟩ := Option.map_eq_some_iff.1 h
  simp only [QueueCluster.complete, he, status, QueueCluster.task_put_task]
  simp

/-- A worker that runs a task to its end leaves the maps as the handler does, and
the entry with what the handler answers. -/
theorem execute_with_lease_returns {entry : TaskStatus} (hentry : status cfg n task_id s.queue = some entry)
    (h : Runs (WorkerSem cfg net unicode) (Meanwhile cfg) (execute_with_lease cfg n task_id task) s () s') :
    ∃ r result, Runs (IndexSem cfg net) Eq (execute unicode n task) s.maps r s'.maps ∧ Reported r result ∧
      status cfg n task_id s'.queue = some (QueueCluster.finished result) := by
  obtain ⟨_, s₁, hspawn, hrest⟩ := runs_bind.1 h
  obtain ⟨a₁, b₁, hbefore₁, ⟨hspawned, hmaps₁⟩, hafter₁⟩ := hspawn.act
  obtain ⟨x, s₂, hexecute, hrest₂⟩ := runs_bind.1 hrest
  obtain ⟨a₂, b₂, hbefore₂, ⟨hqueue, r, result, rfl, hreported, hrun⟩, hafter₂⟩ := hexecute.act
  obtain ⟨_, s₃, habort, hrest₃⟩ := runs_bind.1 hrest₂
  obtain ⟨a₃, b₃, hbefore₃, ⟨haborted, hmaps₃⟩, hafter₃⟩ := habort.act
  obtain ⟨done, s₄, hcomplete, hend⟩ := runs_bind.1 hrest₃
  obtain ⟨a₄, b₄, hbefore₄, ⟨hcompleted, hmaps₄⟩, hafter₄⟩ := hcomplete.act
  obtain ⟨-, hafter₅⟩ := runs_pure.1 hend
  have hstart : a₂.maps = s.maps := by rw [hbefore₂.2, hafter₁.2, hmaps₁, hbefore₁.2]
  have hfinal : s'.maps = b₂.maps := by rw [hafter₅.2, hafter₄.2, hmaps₄, hbefore₄.2, hafter₃.2, hmaps₃, hbefore₃.2, hafter₂.2]
  -- the entry is still there when the handler is done
  have hthere : status cfg n task_id a₄.queue = some entry := by
    have hspawn : status cfg n task_id b₁.queue = status cfg n task_id a₁.queue := by
      rw [show b₁.queue = a₁.queue.spawn_renewal n task_id from hspawned, status, task_spawn_renewal]
      rfl
    have habort : status cfg n task_id b₃.queue = status cfg n task_id a₃.queue := by
      rw [show b₃.queue = a₃.queue.abort_renewal n task_id from haborted, status, task_abort_renewal]
      rfl
    rw [status_meanwhile hbefore₄, status_meanwhile hafter₃, habort, status_meanwhile hbefore₃, status_meanwhile hafter₂,
      hqueue, status_meanwhile hbefore₂, status_meanwhile hafter₁, hspawn, status_meanwhile hbefore₁, hentry]
  refine ⟨r, result, ?_, hreported, ?_⟩
  · rw [hfinal, ← hstart]
    exact hrun
  · rw [status_meanwhile hafter₅, status_meanwhile hafter₄,
      show b₄.queue = (a₄.queue.complete n (Executor.partition_of cfg task_id) task_id result).2 from
        congrArg Prod.snd hcompleted]
    exact status_complete hthere

omit [Serde] in
/-- Only `Ok` is reported as completed. -/
theorem ok_of_reported {r : Result Unit} {result : Except String Unit} (h : Reported r result)
    (hcompleted : QueueCluster.finished result = .Completed) : r = .ok () := by
  cases r with
  | ok _ => rfl
  | error e =>
    cases e with
    | request =>
      obtain ⟨text, rfl⟩ := h
      cases hcompleted
    | anyhow text =>
      obtain rfl : result = .error text := h
      cases hcompleted

/-- If the handler can answer `Ok`, the task can complete. -/
theorem exists_completed {entry : TaskStatus} (hentry : status cfg n task_id s.queue = some entry) {maps : IndexState}
    (h : Runs (IndexSem cfg net) Eq (execute unicode n task) s.maps (.ok ()) maps) :
    ∃ s', Runs (WorkerSem cfg net unicode) (Meanwhile cfg) (execute_with_lease cfg n task_id task) s () s' ∧
      s'.maps = maps ∧ status cfg n task_id s'.queue = some .Completed := by
  let q₁ := s.queue.spawn_renewal n task_id
  let q₂ := q₁.abort_renewal n task_id
  let c := q₂.complete n (Executor.partition_of cfg task_id) task_id (.ok ())
  have hthere : status cfg n task_id q₂ = some entry := by
    rw [status, task_abort_renewal, task_spawn_renewal]
    exact hentry
  have hspawn : WorkerSem cfg net unicode (.spawn_renewal n task_id) s () ⟨q₁, s.maps⟩ := ⟨rfl, rfl⟩
  have hexecute : WorkerSem cfg net unicode (.execute n task) ⟨q₁, s.maps⟩ (some (.ok ())) ⟨q₁, maps⟩ :=
    ⟨rfl, .ok (), .ok (), rfl, rfl, h⟩
  have habort : WorkerSem cfg net unicode (.abort_renewal n task_id) ⟨q₁, maps⟩ () ⟨q₂, maps⟩ := ⟨rfl, rfl⟩
  have hcomplete : WorkerSem cfg net unicode (.complete n (Executor.partition_of cfg task_id) task_id (.ok ()))
    ⟨q₂, maps⟩ c.1 ⟨c.2, maps⟩ := ⟨rfl, rfl⟩
  refine ⟨⟨c.2, maps⟩, ?_, rfl, status_complete hthere⟩
  exact .call (refl _) hspawn (.call (refl _) hexecute (.call (refl _) habort (.call (refl _) hcomplete (.done (refl _)))))

/-! ## What the handler has done -/

theorem listed_of_put {net : Network} {m m' : IndexState} (hi : Agreed cfg ring m.index_map.view) (hn : n ∈ ring.ids)
    {token : String} {book_ids : List String} (h : IndexSem cfg net (.index_put n token book_ids) m (.ok ()) m') :
    postings cfg ring m' token = book_ids := by
  obtain ⟨m₁, hput, rfl⟩ := h
  obtain ⟨primary, backups, howners⟩ := MapConfig.owners_cons cfg hn (cfg.partition_of token)
  have hhead : (cfg.owners ring (cfg.partition_of token)).head? = some primary := by
    rw [howners]
    rfl
  rw [postings, hhead, Option.bind_some, held_of_put hn hi hhead hput]
  rfl

/-- Over any network, a pass over the tokens that ends well has listed the book
under each of them. -/
theorem index_tokens_lists {m m' : IndexState} (hi : Agreed cfg ring m.index_map.view) (hn : n ∈ ring.ids)
    {tokens : List String} (hnd : tokens.Nodup)
    (hrun : Runs (IndexSem cfg net) Eq (index_tokens n book_id tokens) m (.ok ()) m') :
    ∀ token ∈ tokens, book_id ∈ postings cfg ring m' token := by
  induction tokens generalizing m with
  | nil => exact fun _ h => absurd h List.not_mem_nil
  | cons token tokens ih =>
    obtain ⟨hnew, hnd⟩ := List.nodup_cons.1 hnd
    obtain ⟨x, m₁, r₁, m₂, hget, hput, hrest⟩ := runs_index_tokens_cons.1 hrun
    have hrw : Rewrites cfg n book_id token m m₂ := rewrites_of_steps hi hn hget hput
    have hi₂ : Agreed cfg ring m₂.index_map.view := hrw.view ▸ hi
    cases r₁ with
    | error e => cases hrest.1
    | ok _ =>
      intro t ht
      rcases List.mem_cons.1 ht with rfl | ht
      · have hi₁ : Agreed cfg ring m₁.index_map.view := by
          obtain ⟨d, hread, rfl⟩ := hget
          obtain ⟨-, hdata⟩ := (reads_get hi hn t).runs (refl _) hread.alone
          exact hdata.view ▸ hi
        rw [index_tokens_others hi₂ hn hrest hnew, listed_of_put hi₁ hn hput]
        exact mem_push_book book_id _
      · exact ih hi₂ hnd hrest t ht

/-- Without losses the pass ends well. -/
theorem exists_pass {m : IndexState} (hi : Agreed cfg ring m.index_map.view) (hn : n ∈ ring.ids) (tokens : List String) :
    ∃ m', Runs (IndexSem cfg .lossy) Eq (index_tokens n book_id tokens) m (.ok ()) m' := by
  induction tokens generalizing m with
  | nil => exact ⟨m, runs_pure.2 ⟨rfl, rfl⟩⟩
  | cons token tokens ih =>
    obtain ⟨m₁, m₂, hget, hput, hview, -⟩ := exists_rewrite (s := m) hi hn book_id token
    obtain ⟨m', hrest⟩ := ih (m := m₂) (hview ▸ hi)
    exact ⟨m', runs_index_tokens_cons.2 ⟨_, m₁, _, m₂, hget, hput, hrest⟩⟩

/-- With `Ok`, the handler has listed the book under the tokens of the document its
node stores; what was listed before stays. -/
theorem listed_of_ok {m m' : IndexState} (hd : Agreed cfg ring m.datalake.view) (hi : Agreed cfg ring m.index_map.view)
    (hn : n ∈ ring.ids) (hrun : Runs (IndexSem cfg net) Eq (index_document unicode n (index_task book_id)) m (.ok ()) m')
    {token : String} (h : HasToken cfg unicode n m.datalake token book_id ∨ book_id ∈ postings cfg ring m token) :
    book_id ∈ postings cfg ring m' token := by
  obtain ⟨x, m₁, ⟨d, hread, rfl⟩, hrest⟩ := (runs_index_document (JsonPayload.from_value_to_value (IndexTaskPayload.mk book_id)) _).1 hrun
  obtain ⟨⟨asked, -, -, hx⟩, -⟩ := (reads_get hd hn book_id).runs (refl _) hread.alone
  cases x with
  | none =>
    obtain ⟨-, rfl⟩ := hrest
    rcases h with ⟨own, hown, -⟩ | hlisted
    · rw [hown, Option.some_or] at hx
      cases hx
    · exact hlisted
  | some found =>
    obtain ⟨tokens, hperm, htokens⟩ := hrest
    have hnd : tokens.Nodup := hperm.nodup_iff.2 (tokenize_text_nodup unicode found.body)
    by_cases ht : token ∈ tokens
    · exact index_tokens_lists (m := { m with datalake := d }) hi hn hnd htokens token ht
    · rw [index_tokens_others (s := { m with datalake := d }) hi hn htokens ht]
      rcases h with ⟨own, hown, hmem⟩ | hlisted
      · rw [hown, Option.some_or] at hx
        obtain rfl := Option.some.inj hx
        exact absurd (hperm.mem_iff.2 hmem) ht
      · exact hlisted

/-- It may answer `Ok` and leave alone whatever its node's own document has not. -/
theorem exists_ok {m : IndexState} (hd : Agreed cfg ring m.datalake.view) (hi : Agreed cfg ring m.index_map.view)
    (hn : n ∈ ring.ids) {token : String} (h : ¬ HasToken cfg unicode n m.datalake token book_id) :
    ∃ m', Runs (IndexSem cfg .lossy) Eq (index_document unicode n (index_task book_id)) m (.ok ()) m' ∧
      postings cfg ring m' token = postings cfg ring m token := by
  -- every request to the datalake gets lost
  obtain ⟨sent, hget⟩ := exec_get hd hn book_id fun _ => false
  have hread : Runs (MapSem cfg .lossy) Eq (get cfg n book_id) m.datalake _ _ :=
    exec_runs (MapInt_sem (allows_heard fun _ => false)) (get cfg n book_id) m.datalake
  rw [hget, List.filter_false, List.findSome?_nil, Option.or_none] at hread
  let m₁ : IndexState := { m with datalake := { m.datalake with sent } }
  have hact : IndexSem cfg .lossy (.datalake_get n book_id) m _ m₁ := ⟨_, hread, rfl⟩
  have hpayload := JsonPayload.from_value_to_value (IndexTaskPayload.mk book_id)
  cases hown : m.datalake.stored n (cfg.partition_of book_id) book_id with
  | none =>
    rw [hown] at hact
    exact ⟨m₁, (runs_index_document hpayload _).2 ⟨none, m₁, hact, rfl, rfl⟩, rfl⟩
  | some own =>
    rw [hown] at hact
    obtain ⟨m', hpass⟩ : ∃ m', Runs (IndexSem cfg .lossy) Eq (index_tokens n book_id (tokenize_text unicode own.body)) m₁
        (.ok ()) m' := exists_pass (m := m₁) hi hn _
    refine ⟨m', (runs_index_document hpayload _).2 ⟨some own, m₁, hact, _, .refl _, hpass⟩, ?_⟩
    exact index_tokens_others (s := m₁) hi hn hpass fun hmem => h ⟨own, hown, hmem⟩

/-- Whenever the entry ends as completed the book is listed under all tokens of its
document, whatever gets lost, if and only if the worker's node owns the document,
or each token is in one that it stores anyway or lists the book already. -/
theorem completed_indexed_iff (hd : Agreed cfg ring s.maps.datalake.view) (hi : Agreed cfg ring s.maps.index_map.view)
    (hn : n ∈ ring.ids) (hclaimed : status cfg n task_id s.queue = some .Running)
    (hstored : ∀ m ∈ cfg.owners ring (cfg.partition_of book_id),
      s.maps.datalake.stored m (cfg.partition_of book_id) book_id = some doc) :
    (∀ s', Runs (WorkerSem cfg .lossy unicode) (Meanwhile cfg) (execute_with_lease cfg n task_id (index_task book_id)) s () s' →
        status cfg n task_id s'.queue = some .Completed →
        ∀ token ∈ tokenize_text unicode doc.body, book_id ∈ postings cfg ring s'.maps token) ↔
      n ∈ cfg.owners ring (cfg.partition_of book_id) ∨
        ∀ token ∈ tokenize_text unicode doc.body,
          HasToken cfg unicode n s.maps.datalake token book_id ∨ book_id ∈ postings cfg ring s.maps token := by
  constructor
  · intro h
    refine .inr fun token ht => ?_
    by_contra hcon
    obtain ⟨hhas, hlisted⟩ := not_or.1 hcon
    obtain ⟨maps, hrun, hsame⟩ := exists_ok hd hi hn hhas
    have hexecute : Runs (IndexSem cfg .lossy) Eq (execute unicode n (index_task book_id)) s.maps (.ok ()) maps := hrun
    obtain ⟨s', hexecution, rfl, hcompleted⟩ := exists_completed hclaimed hexecute
    rw [← hsame] at hlisted
    exact hlisted (h s' hexecution hcompleted token ht)
  · intro h s' hrun hcompleted token ht
    obtain ⟨r, result, hhandler, hreported, hstatus⟩ := execute_with_lease_returns hclaimed hrun
    rw [hcompleted] at hstatus
    obtain rfl : r = .ok () := ok_of_reported hreported (Option.some.inj hstatus).symm
    refine listed_of_ok hd hi hn hhandler ?_
    rcases h with howner | h
    · exact .inl ⟨doc, hstored n howner, ht⟩
    · exact h token ht

end

section Example

open CompactJson

def task_z : TaskId := ⟨"z"⟩

/-- The worker of a node has claimed the task of book x. -/
def claimed_at (n : NodeId) : WorkerState where
  queue := (QueueCluster.empty (demo_view trio) fun _ => 0).put_task n (Executor.partition_of trio_cfg task_z) task_z
    { task := index_task "x", status := .Running, assigned_to := some n, created_at := 0, lease_expires := some 30000 }
  maps := unlisted

theorem status_claimed (n : NodeId) : status trio_cfg n task_z (claimed_at n).queue = some .Running := by
  simp [status, claimed_at, QueueCluster.task_put_task]

theorem maps_claimed (n : NodeId) : (claimed_at n).maps = unlisted := rfl

theorem agreed_claimed (n : NodeId) : Agreed trio_cfg trio (claimed_at n).maps.datalake.view ∧
    Agreed trio_cfg trio (claimed_at n).maps.index_map.view := by
  rw [maps_claimed, unlisted]
  exact ⟨agreed_shelf, agreed_trio⟩

theorem stored_claimed (n : NodeId) : ∀ m ∈ trio_cfg.owners trio (trio_cfg.partition_of "x"),
    (claimed_at n).maps.datalake.stored m (trio_cfg.partition_of "x") "x" = some (document "x" "abc") := by
  rw [maps_claimed]
  decide +kernel

theorem completed_indexed_at_primary :
    (∀ s', Runs (WorkerSem trio_cfg .lossy .ascii) (Meanwhile trio_cfg)
          (execute_with_lease trio_cfg node_a task_z (index_task "x")) (claimed_at node_a) () s' →
        status trio_cfg node_a task_z s'.queue = some .Completed →
        ∀ token ∈ tokenize_text .ascii (document "x" "abc").body, "x" ∈ postings trio_cfg trio s'.maps token) ↔
      node_a ∈ trio_cfg.owners trio (trio_cfg.partition_of "x") ∨
        ∀ token ∈ tokenize_text .ascii (document "x" "abc").body,
          HasToken trio_cfg .ascii node_a (claimed_at node_a).maps.datalake token "x" ∨
            "x" ∈ postings trio_cfg trio (claimed_at node_a).maps token :=
  completed_indexed_iff (agreed_claimed node_a).1 (agreed_claimed node_a).2 (by decide) (status_claimed node_a)
    (stored_claimed node_a)

/-- Node c has no copy of book x and reaches no owner: the task completes, and
nothing is indexed. -/
theorem completed_without_index :
    ¬ ∀ (cfg : MapConfig) (ring : NodeRing NodeId) (unicode : Unicode) (n : NodeId) (task_id : TaskId) (book_id : String)
      (doc : RawDocument) (s s' : WorkerState), Agreed cfg ring s.maps.datalake.view →
      Agreed cfg ring s.maps.index_map.view → n ∈ ring.ids → status cfg n task_id s.queue = some .Running →
      (∀ m ∈ cfg.owners ring (cfg.partition_of book_id),
        s.maps.datalake.stored m (cfg.partition_of book_id) book_id = some doc) →
      Runs (WorkerSem cfg .lossy unicode) (Meanwhile cfg) (execute_with_lease cfg n task_id (index_task book_id)) s () s' →
      status cfg n task_id s'.queue = some .Completed →
      ∀ token ∈ tokenize_text unicode doc.body, book_id ∈ postings cfg ring s'.maps token := by
  intro h
  obtain ⟨hd, hi⟩ := agreed_claimed node_c
  have hmem : node_c ∈ trio.ids := by decide
  have hnone : (claimed_at node_c).maps.datalake.stored node_c (trio_cfg.partition_of "x") "x" = none := by
    rw [maps_claimed]
    decide +kernel
  have hhas : ¬ HasToken trio_cfg .ascii node_c (claimed_at node_c).maps.datalake "abc" "x" := by
    rintro ⟨doc, hdoc, -⟩
    rw [hnone] at hdoc
    cases hdoc
  obtain ⟨maps, hrun, hsame⟩ := exists_ok hd hi hmem hhas
  have hexecute : Runs (IndexSem trio_cfg .lossy) Eq (execute .ascii node_c (index_task "x")) (claimed_at node_c).maps
    (.ok ()) maps := hrun
  obtain ⟨s', hexecution, rfl, hcompleted⟩ := exists_completed (status_claimed node_c) hexecute
  have hlisted := h trio_cfg trio .ascii node_c task_z "x" (document "x" "abc") _ s' hd hi hmem (status_claimed node_c)
    (stored_claimed node_c) hexecution hcompleted "abc" (by decide +kernel)
  rw [hsame, maps_claimed] at hlisted
  exact absurd hlisted (by decide +kernel)

end Example

end Search
