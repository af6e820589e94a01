import DistributedCluster.App.Soundness
import DistributedCluster.Lib.Parts
/-!
# What holds of each component holds in the application

The handlers use the three maps and the queue together: one process starts an
operation of one map within an operation of another, and a worker runs a handler
that goes on for a while in its own pass. Each component still only goes through
states that it reaches alone.
-/

namespace App

open Async

section Components

variable (w : World) (cfg : MapConfig) (net : Network)

def books_part : Part (MapSem (K := String) (V := BookMetadata) cfg net) (AppSem w cfg net) where
  toInclusion := books_acts
  view := State.books
  sem := by
    rintro e t x t' ⟨b, h, rfl⟩
    exact h

def datalake_part : Part (MapSem (K := String) (V := RawDocument) cfg net) (AppSem w cfg net) where
  toInclusion := datalake_acts
  view := State.datalake
  sem := by
    rintro e t x t' ⟨b, h, rfl⟩
    exact h

def index_part : Part (MapSem (K := String) (V := List String) cfg net) (AppSem w cfg net) where
  toInclusion := index_acts
  view := State.index_map
  sem := by
    rintro e t x t' ⟨b, h, rfl⟩
    exact h

def queue_part : Part (Executor.QueueSem cfg net) (AppSem w cfg net) where
  act := .queue
  ans x := x
  view := State.queue
  sem := by
    rintro e t x t' ⟨b, h, rfl⟩
    exact h

end Components

variable {w : World} {cfg : MapConfig} {net : Network} {φ : Job → Prop}

/-! ## What changes a component -/

/-- An action changes no component but its own. -/
theorem AppSem_frame {f : Act} {s s' : State} {x : AppI.Ans f} (h : AppSem w cfg net f s x s') :
    ((∃ e, f = .books e) ∨ s'.books = s.books) ∧ ((∃ e, f = .datalake e) ∨ s'.datalake = s.datalake) ∧
      ((∃ e, f = .index e) ∨ s'.index_map = s.index_map) ∧ ((∃ e, f = .queue e) ∨ s'.queue = s.queue) := by
  cases f with
  | outside e =>
    obtain ⟨-, rfl⟩ := h
    cases e <;> simp [State.logged]
  | books e | datalake e | index e | queue e =>
    obtain ⟨_, -, rfl⟩ := h
    simp

theorem books_framed : (books_part w cfg net).Framed :=
  fun _ h _ _ _ hstep => (AppSem_frame hstep).1.resolve_left fun ⟨e, he⟩ => h e he

theorem datalake_framed : (datalake_part w cfg net).Framed :=
  fun _ h _ _ _ hstep => (AppSem_frame hstep).2.1.resolve_left fun ⟨e, he⟩ => h e he

theorem index_framed : (index_part w cfg net).Framed :=
  fun _ h _ _ _ hstep => (AppSem_frame hstep).2.2.1.resolve_left fun ⟨e, he⟩ => h e he

theorem queue_framed : (queue_part w cfg net).Framed :=
  fun _ h _ _ _ hstep => (AppSem_frame hstep).2.2.2.resolve_left fun ⟨e, he⟩ => h e he

/-- A map moves with the environment or stays as it is. -/
theorem around_maps {s s' : State} (h : Around cfg s s') :
    (s'.books = s.books ∨ ∃ view, s'.books = { s.books with view }) ∧
      (s'.datalake = s.datalake ∨ ∃ view, s'.datalake = { s.datalake with view }) ∧
      (s'.index_map = s.index_map ∨ ∃ view, s'.index_map = { s.index_map with view }) := by
  cases h with
  | membership view => exact ⟨.inr ⟨view, rfl⟩, .inr ⟨view, rfl⟩, .inr ⟨view, rfl⟩⟩
  | beside _ => exact ⟨.inl rfl, .inl rfl, .inl rfl⟩

theorem around_queue {s s' : State} (h : Around cfg s s') (l : Executor.QueuePool) :
    Executor.Around cfg (fun _ => True) s.queue l s'.queue := by
  cases h with
  | membership view => exact .membership view trivial
  | beside hbeside =>
    cases hbeside with
    | tick clock => exact .beside (.tick clock)
    | renewal hmem => exact .beside (.renewal hmem)

/-! ## The application, as one component sees it -/

section Handlers

variable {I : Interface} {σ ι α V : Type} {S : Sem I σ} (P : Part S (AppSem w cfg net))
  (spawn : σ → Pool ι I α → ι → Async I α → Prop)

/-- The component can follow what the application does with the map `Q`. -/
structure FollowsMap [Json V] (Q : Part (MapSem (K := String) (V := V) cfg net) (AppSem w cfg net)) : Prop where
  get (n : NodeId) (key : String) : Follows P spawn none (Q.within (DistributedMap.get cfg n key))
  put (n : NodeId) (key : String) (value : V) : Follows P spawn none (Q.within (DistributedMap.put cfg n key value))
  started {s : State} {job : DistributedMap.Job String V} {p : MapM String V Unit} :
    DistributedMap.Started cfg (Q.view s) job p → Joins P spawn (P.view s) (unattended (Q.within p))

variable {P spawn}

/-- The operations of a map are its own processes. -/
theorem followsMap_self [Json V] {Q : Part (MapSem (K := String) (V := V) cfg net) (AppSem w cfg net)} :
    FollowsMap Q (fun s _ => DistributedMap.Started cfg s) Q where
  get n key := follows_started (fun _ => carriesOut_act) fun _ _ => .get n key
  put n key value := follows_started (fun _ => carriesOut_act) fun _ _ => .put n key value
  started h := .inr ⟨_, _, fun _ => h, follows_process (fun _ => carriesOut_act) _ none⟩

theorem followsMap_other [Json V] {Q : Part (MapSem (K := String) (V := V) cfg net) (AppSem w cfg net)} (hP : P.Framed)
    (hne : ∀ e e', Q.act e ≠ P.act e') : FollowsMap P spawn Q where
  get _ _ := .within (fun e => hP _ (hne e)) _
  put _ _ _ := .within (fun e => hP _ (hne e)) _
  started _ := .inl ((Follows.within (fun e => hP _ (hne e)) _).bind fun _ => .done none)

section

variable [Serde] (P spawn)

/-- The component can follow all that a handler of a task uses. -/
structure FollowsTasks : Prop where
  outside (e : OutsideAct) : Follows P spawn none (outside e)
  books : FollowsMap P spawn (books_part w cfg net)
  datalake : FollowsMap P spawn (datalake_part w cfg net)
  index : FollowsMap P spawn (index_part w cfg net)

/-- And all that the handlers of the server use, and the workers. -/
structure FollowsAll : Prop extends FollowsTasks P spawn where
  submit (n : NodeId) (task : Executor.Task) : Follows P spawn none (in_queue w cfg (Executor.submit cfg n task))
  queue {s : State} {job : Executor.Job} {p : Executor.QueueM (Option (Result Executor.TaskId))} :
    Executor.Started cfg s.queue [] job p → Joins P spawn (P.view s) (unattended (in_queue w cfg p))

variable {P spawn}

theorem FollowsTasks.execute_task (h : FollowsTasks P spawn) (n : NodeId) (task : Executor.Task) :
    Follows P spawn none (execute_task w cfg n task) := by
  have hop : ∀ e, Follows P spawn none (index_op cfg e) := by
    intro e
    cases e with
    | datalake_get n book_id => exact h.datalake.get n book_id
    | index_get n token => exact h.index.get n token
    | index_put n token book_ids => exact h.index.put n token book_ids
    | iterate n set => exact h.outside (.iterate_texts set)
  exact (Follows.expand hop _).bind fun r => (h.outside (.report r)).bind fun result => .done (some result)

/-- A component that does not notice the queue. -/
theorem FollowsTasks.followsAll (h : FollowsTasks P spawn) (hqueue : ∀ e, P.Unnoticed (.queue e)) : FollowsAll P spawn := by
  have hin : ∀ {γ : Type} (p : Executor.QueueM γ), Follows P spawn none (in_queue w cfg p) := by
    intro γ p
    refine Follows.expand (fun e => ?_) p
    cases e with
    | execute n task => exact h.execute_task n task
    | _ => exact .unseen (hqueue _)
  exact ⟨h, fun _ _ => hin _, fun _ => .inl ((hin _).bind fun _ => .done none)⟩

/-- Whatever starts in the application, the component follows. -/
theorem FollowsAll.started (h : FollowsAll P spawn) {s : State} {job : Job} {p : AppM (Option Search.SearchResponse)}
    (hstart : Started w cfg s job p) : Joins P spawn (P.view s) p := by
  have hingest : ∀ e, Follows P spawn none (ingest_op w cfg e) := by
    intro e
    cases e with
    | datalake_get n book_id => exact h.datalake.get n book_id
    | datalake_put n book_id raw_doc => exact h.datalake.put n book_id raw_doc
    | books_put n book_id metadata => exact h.books.put n book_id metadata
    | submit n task => exact h.submit n task
    | fetch n url => exact h.outside (.fetch n url)
    | log n line => exact h.outside (.log n line)
  have hcreate : ∀ e, Follows P spawn none (create_op w cfg e) := by
    intro e
    cases e with
    | new_uuid n => exact h.outside (.new_uuid n)
    | books_put n book_id book_meta => exact h.books.put n book_id book_meta
    | submit n task => exact h.submit n task
    | log n line => exact h.outside (.log n line)
  have hsearch : ∀ n e, Follows P spawn none (search_op cfg n e) := by
    intro n e
    cases e with
    | index_get token => exact h.index.get n token
    | books_get book_id => exact h.books.get n book_id
    | iterate entries => exact h.outside (.iterate_scores entries)
  cases hstart with
  | books hstart => exact h.books.started hstart
  | datalake hstart => exact h.datalake.started hstart
  | index hstart => exact h.index.started hstart
  | queue hstart => exact h.queue hstart
  | ingest n book_id => exact .inl ((Follows.expand hingest _).bind fun _ => .done none)
  | ingest_status n book_id => exact .inl ((Follows.expand hingest _).bind fun _ => .done none)
  | create_book n req => exact .inl ((Follows.expand hcreate _).bind fun _ => .done none)
  | search n params => exact .inl ((Follows.expand (hsearch n) _).bind fun response => .done (some response))

end

end Handlers

section

variable [Serde]

/-! ## What each component follows -/

/-- A handler that a worker runs does nothing to the queue. -/
theorem execute_task_unnoticed (n : NodeId) (task : Executor.Task) :
    Obeys (Discipline.only (queue_part w cfg net).Unnoticed) (execute_task w cfg n task) () fun _ _ => True := by
  have hother : ∀ f : Act, (∀ e, f ≠ .queue e) →
      Obeys (Discipline.only (queue_part w cfg net).Unnoticed) (perform (I := AppI) f) () fun _ _ => True :=
    fun f hf => obeys_only (queue_framed f hf)
  have hop : ∀ e, Obeys (Discipline.only (queue_part w cfg net).Unnoticed) (index_op cfg e) () fun _ _ => True := by
    intro e
    cases e with
    | datalake_get n book_id => exact obeys_only_expand (fun e => hother (.datalake e) (by simp)) _
    | index_get n token => exact obeys_only_expand (fun e => hother (.index e) (by simp)) _
    | index_put n token book_ids => exact obeys_only_expand (fun e => hother (.index e) (by simp)) _
    | iterate n set => exact hother (.outside (.iterate_texts set)) (by simp)
  exact (obeys_only_expand hop _).bind fun r _ _ =>
    (hother (.outside (.report r)) (by simp)).bind fun _ _ _ => Obeys.pure trivial

theorem queue_op_carriesOut (e : Executor.QueueAct) :
    CarriesOut (queue_part w cfg net) (Executor.Started cfg) e (queue_op w cfg e) := by
  cases e with
  | execute n task => exact carriesOut_unnoticed (fun _ _ => rfl) (execute_task_unnoticed n task)
  | _ => exact carriesOut_act

theorem books_follows : FollowsAll (books_part w cfg net) fun s _ => DistributedMap.Started cfg s :=
  have htasks : FollowsTasks (books_part w cfg net) fun s _ => DistributedMap.Started cfg s := {
    outside _ := .unseen (books_framed _ fun _ h => nomatch h)
    books := followsMap_self
    datalake := followsMap_other books_framed fun _ _ h => nomatch h
    index := followsMap_other books_framed fun _ _ h => nomatch h }
  htasks.followsAll fun _ => books_framed _ fun _ h => nomatch h

theorem datalake_follows : FollowsAll (datalake_part w cfg net) fun s _ => DistributedMap.Started cfg s :=
  have htasks : FollowsTasks (datalake_part w cfg net) fun s _ => DistributedMap.Started cfg s := {
    outside _ := .unseen (datalake_framed _ fun _ h => nomatch h)
    books := followsMap_other datalake_framed fun _ _ h => nomatch h
    datalake := followsMap_self
    index := followsMap_other datalake_framed fun _ _ h => nomatch h }
  htasks.followsAll fun _ => datalake_framed _ fun _ h => nomatch h

theorem index_follows : FollowsAll (index_part w cfg net) fun s _ => DistributedMap.Started cfg s :=
  have htasks : FollowsTasks (index_part w cfg net) fun s _ => DistributedMap.Started cfg s := {
    outside _ := .unseen (index_framed _ fun _ h => nomatch h)
    books := followsMap_other index_framed fun _ _ h => nomatch h
    datalake := followsMap_other index_framed fun _ _ h => nomatch h
    index := followsMap_self }
  htasks.followsAll fun _ => index_framed _ fun _ h => nomatch h

theorem queue_started {s : State} {job : Executor.Job} {p : Executor.QueueM (Option (Result Executor.TaskId))}
    (h : Executor.Started cfg s.queue [] job p) :
    Joins (queue_part w cfg net) (Executor.Started cfg) s.queue (unattended (in_queue w cfg p)) := by
  have hstart : ∀ l, Executor.Started cfg s.queue l job p := by
    intro l
    cases h with
    | submit n task => exact .submit n task
    | submission n task => exact .submission n task
    | worker n => exact .worker n
    | resync n => exact .resync n
    | arrival hsent hhost => exact .arrival hsent hhost
  exact .inr ⟨job, p, hstart, follows_process queue_op_carriesOut p none⟩

theorem submit_follows (n : NodeId) (task : Executor.Task) :
    Follows (queue_part w cfg net) (Executor.Started cfg) none (in_queue w cfg (Executor.submit cfg n task)) :=
  follows_started queue_op_carriesOut fun _ _ => .submit n task

theorem queue_follows : FollowsAll (queue_part w cfg net) (Executor.Started cfg) where
  outside _ := .unseen (queue_framed _ fun _ h => nomatch h)
  books := followsMap_other queue_framed fun _ _ h => nomatch h
  datalake := followsMap_other queue_framed fun _ _ h => nomatch h
  index := followsMap_other queue_framed fun _ _ h => nomatch h
  submit := submit_follows
  queue := queue_started

/-! ## Runs -/

section Runs

variable {s : State} {view : NodeId → MembershipService} {clock : NodeId → Nat} {l : AppPool}

/-- For a map that moves with the environment, a run of the application is one of its own. -/
theorem map_reachable {V : Type} [Json V] {P : Part (MapSem (K := String) (V := V) cfg net) (AppSem w cfg net)}
    (hP : FollowsAll P fun s _ => DistributedMap.Started cfg s) (hempty : P.view (.empty view clock) = .empty view)
    (haround : ∀ s s', Around cfg s s' → P.view s' = P.view s ∨ ∃ view, P.view s' = { P.view s with view })
    (h : Steps w cfg net φ (.empty view clock, []) (s, l)) : DistributedMap.Reachable cfg net (P.view s) := by
  have hsteps : ∃ m, DistributedMap.MapSteps cfg net (P.view (.empty view clock), []) (P.view s, m) ∧ _ :=
    Pool.steps_part (fun _ _ _ _ hstart => hP.started hstart.1) (fun _ _ _ henv => (haround _ _ henv).imp id fun h _ => h) h
  obtain ⟨m, hsteps, -⟩ := hsteps
  rw [hempty] at hsteps
  exact ⟨view, m, hsteps⟩

end Runs

/-- Whatever the application does, each of its components is in a state that it reaches
alone, with its own operations, requests and changes of membership. -/
theorem components_reachable {view : NodeId → MembershipService} {clock : NodeId → Nat} {s : State} {l : AppPool}
    (h : Steps w cfg net φ (.empty view clock, []) (s, l)) :
    DistributedMap.Reachable cfg net s.books ∧ DistributedMap.Reachable cfg net s.datalake ∧
      DistributedMap.Reachable cfg net s.index_map ∧ Executor.Reachable cfg net s.queue := by
  refine ⟨map_reachable books_follows rfl (fun _ _ henv => (around_maps henv).1) h,
    map_reachable datalake_follows rfl (fun _ _ henv => (around_maps henv).2.1) h,
    map_reachable index_follows rfl (fun _ _ henv => (around_maps henv).2.2) h, ?_⟩
  have hsteps : ∃ m, Executor.Steps cfg net (.empty view clock, []) (s.queue, m) ∧ _ :=
    Pool.steps_part (P := queue_part w cfg net) (fun _ _ _ _ hstart => queue_follows.started hstart.1)
      (fun _ _ _ henv => .inr (around_queue henv)) h
  obtain ⟨m, hsteps, -⟩ := hsteps
  exact ⟨view, clock, m, hsteps⟩

end

open CompactJson in
/-- One node takes a book in, its worker lists it, and a search finds it. -/
theorem components_reachable_found :
    DistributedMap.Reachable Executor.solo_cfg .reliable found.2.books ∧
      DistributedMap.Reachable Executor.solo_cfg .reliable found.2.datalake ∧
      DistributedMap.Reachable Executor.solo_cfg .reliable found.2.index_map ∧
      Executor.Reachable Executor.solo_cfg .reliable found.2.queue := by
  obtain ⟨l, hsteps⟩ := steps_found
  exact components_reachable hsteps

end App
