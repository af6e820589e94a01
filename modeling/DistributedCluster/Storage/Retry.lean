import DistributedCluster.Lib.Logging
import DistributedCluster.Storage.Agreement
import DistributedCluster.Storage.Conduct
/-!
# Retrying a write

A caller that hears nothing calls again with the same operation id, and requests
may arrive late or twice. The primary answers a repeated operation with `Ok` at
once, whatever became of the replication the first time. The acknowledgement can
be trusted when the operation has been let through at every backup by then, and
nobody who let it through still has to store the value.
-/

namespace DistributedMap

open Async

variable {K V : Type} [DecidableEq K] [Key K]

/-- The write that is called again and again, at node `n`. -/
structure Retried (K V : Type) where
  cfg : MapConfig
  n : NodeId
  op_id : String
  key : K
  value : V

namespace Retried

/-- The calls of the write and the handlers of its replication requests. -/
inductive Party
  | call
  | handler

section Conditions

variable (t : Retried K V)

def partition : Nat := t.cfg.partition_of t.key

/-- `get_owners` at the node. -/
def owners (view : NodeId → MembershipService) : List NodeId :=
  t.cfg.partitioner.get_owners (view t.n) t.partition

def Holds (m : NodeId) (s : MapCluster K V) : Prop := s.stored m t.partition t.key = some t.value

/-- Every backup of the moment has the value. -/
def Carried (s : MapCluster K V) : Prop := ∀ b ∈ (t.owners s.view).tail, t.Holds b s

/-- Whoever answers at the address of a backup is that backup. -/
def Addressed (view : NodeId → MembershipService) : Prop :=
  ∀ b ∈ (t.owners view).tail, ∀ node, (view t.n).get_member b = some node →
    ∀ m, t.cfg.host t.n node.http_addr = some m → m = b

/-- Whoever holds the value keeps it. -/
structure Kept (s s' : MapCluster K V) : Prop where
  held : ∀ m, t.Holds m s → t.Holds m s'

/-- Also the node's owners stay the same and its members reachable as before. -/
structure Steady (s s' : MapCluster K V) : Prop extends t.Kept s s' where
  owners : t.owners s'.view = t.owners s.view
  addressed : t.Addressed s.view → t.Addressed s'.view

/-- What each party relies on. -/
def Relies : Party → MapCluster K V → MapCluster K V → Prop
  | .call => t.Steady
  | .handler => t.Kept

/-- The work a refused operation should have done: at the node the backups have
the value, at another one that node has it. -/
def Done (m : NodeId) (s : MapCluster K V) : Prop := if m = t.n then t.Carried s else t.Holds m s

/-- The operation is only refused where its work is done. -/
def RefusedWhenDone : (e : MapAct K V) → MapCluster K V → (MapI K V).Ans e → Prop
  | .contains_op m op_id, s, found => op_id = t.op_id → found = true → t.Done m s
  | _, _, _ => True

/-- Steps over a lossy network that refuse the operation only where its work is
done. -/
def Careful : Sem (MapI K V) (MapCluster K V) := (MapSem t.cfg .lossy).restrict t.RefusedWhenDone

instance : StepsOf t.Careful t.cfg .lossy :=
  inferInstanceAs (StepsOf ((MapSem t.cfg .lossy).restrict t.RefusedWhenDone) t.cfg .lossy)

instance (j : Party) : IsPreorder (MapCluster K V) (t.Relies j) where
  refl s := by
    cases j with
    | call => exact ⟨⟨fun _ h => h⟩, rfl, id⟩
    | handler => exact ⟨fun _ h => h⟩
  trans s s₁ s₂ h h' := by
    cases j with
    | call =>
      exact ⟨⟨fun m hm => h'.held m (h.held m hm)⟩, h'.owners.trans h.owners, fun ha => h'.addressed (h.addressed ha)⟩
    | handler => exact ⟨fun m hm => h'.held m (h.held m hm)⟩

/-- What the parties do: no value is lost and no view changes. -/
abbrev Keeps (s s' : MapCluster K V) : Prop := ∀ j, t.Relies j s s'

instance : Std.Refl t.Keeps := ⟨fun s _ => refl s⟩

end Conditions

variable {t : Retried K V}

theorem keeps_of {s s' : MapCluster K V} (hview : s'.view = s.view) (h : ∀ m, t.Holds m s → t.Holds m s') :
    t.Keeps s s' := by
  intro j
  cases j with
  | call => exact ⟨⟨h⟩, by rw [hview], fun ha => hview ▸ ha⟩
  | handler => exact ⟨h⟩

omit [DecidableEq K] in
theorem addressed_of_agreed {ring : NodeRing NodeId} {view : NodeId → MembershipService}
    (h : Agreed t.cfg ring view) (hn : t.n ∈ ring.ids) : t.Addressed view := by
  intro b hb node hnode m hm
  rw [owners, h.get_owners hn] at hb
  obtain ⟨node', hnode', haddr⟩ := h.reach t.n hn b (MapConfig.mem_of_mem_owners (List.mem_of_mem_tail hb))
  rw [hnode] at hnode'
  cases hnode'
  rw [hm] at haddr
  exact Option.some.inj haddr

theorem keeps_clear_ops (s : MapCluster K V) (m : NodeId) : t.Keeps s (s.clear_ops m) :=
  keeps_of rfl fun m' hm => (s.stored_clear_ops m m' t.partition t.key).trans hm

theorem keeps_insert_op (s : MapCluster K V) (m : NodeId) (op : String) : t.Keeps s (s.insert_op m op) :=
  keeps_of rfl fun m' hm => (s.stored_insert_op m m' op t.partition t.key).trans hm

theorem holds_store_local (s : MapCluster K V) (m : NodeId) :
    t.Holds m (s.store_local m t.partition t.key t.value) :=
  (s.stored_store_local ..).trans (if_pos ⟨rfl, rfl, rfl⟩)

theorem keeps_store_local (s : MapCluster K V) (m : NodeId) :
    t.Keeps s (s.store_local m t.partition t.key t.value) :=
  keeps_of rfl fun m' hm => by
    rw [Holds, s.stored_store_local]
    split
    · rfl
    · exact hm

theorem keeps_send (s : MapCluster K V) (n : NodeId) (addr : SocketAddr) (req : Request) : t.Keeps s (s.send n addr req) :=
  keeps_of rfl fun _ h => h

theorem holds_stable (j : Party) (m : NodeId) : Stable (t.Relies j) (t.Holds m) := by
  intro s s' h
  cases j with
  | call => exact h.held m
  | handler => exact h.held m

/-! ## What the programs do -/

section Programs

variable {j : Party} {P : MapCluster K V → Prop}

/-- A promise about one party. -/
abbrev Does {α : Type} (t : Retried K V) (j : Party) (P : MapCluster K V → Prop) (p : MapM K V α)
    (Q : α → MapCluster K V → Prop) : Prop :=
  Triple t.Careful (t.Relies j) t.Keeps P p Q

theorem should_process_does (hP : Stable (t.Relies j) P) {D : MapCluster K V → Prop} (hD : Stable (t.Relies j) D)
    {m : NodeId} (hdone : ∀ s, P s → t.Done m s → D s) :
    t.Does j P (should_process m t.op_id) fun b s => if b then P s else D s := by
  refine triple_should_process hP hP (fun b => ?_) ?_ (fun _ hs _ => hs) ?_ ?_
  · cases b with
    | true => exact hP
    | false => exact hD
  · exact fun s hs hfound => hdone s hs (hfound.2 rfl rfl)
  · exact fun s hs => ⟨keeps_clear_ops s m, hP _ _ (keeps_clear_ops s m j) hs⟩
  · exact fun s hs => ⟨keeps_insert_op s m _, hP _ _ (keeps_insert_op s m _ j) hs⟩

theorem store_local_does (hP : Stable (t.Relies j) P) (m : NodeId) :
    t.Does j P (store_local m t.partition t.key t.value) fun _ s => P s ∧ t.Holds m s :=
  triple_store_local hP (fun _ s s' hR hs => ⟨hP s s' hR hs.1, holds_stable j m s s' hR hs.2⟩) fun s hs =>
    ⟨keeps_store_local s m, hP _ _ (keeps_store_local s m j) hs, holds_store_local s m⟩

theorem store_replica_does (hP : Stable (t.Relies j) P) {D : MapCluster K V → Prop} (hD : Stable (t.Relies j) D)
    {m : NodeId} (hdone : ∀ s, P s → t.Done m s → D s) (hstored : ∀ s, P s → t.Holds m s → D s) :
    t.Does j P (store_replica m t.partition t.op_id t.key t.value) fun r s => r = .ok () ∧ D s := by
  refine (should_process_does hP hD hdone).bind fun b => ?_
  cases b with
  | true =>
    exact (store_local_does hP m).bind fun _ => Triple.pure (hD.assume _) fun s hs => ⟨rfl, hstored s hs.1 hs.2⟩
  | false => exact Triple.pure (hD.assume _) fun s hs => ⟨rfl, hs⟩

variable [Json V]

theorem handle_replicate_does (hP : Stable (t.Relies j) P) {D : MapCluster K V → Prop} (hD : Stable (t.Relies j) D)
    {m : NodeId} (hdone : ∀ s, P s → t.Done m s → D s) (hstored : ∀ s, P s → t.Holds m s → D s) {text : String}
    (htext : Json.to_json t.value = .ok text) :
    t.Does j P (handle_replicate (K := K) (V := V) m ⟨t.partition, t.op_id, Key.to_string t.key, text⟩) fun c s =>
      c = .OK ∧ D s :=
  triple_handle_write (fun _ => hD.assume _) htext ((store_replica_does hP hD hdone hstored).post fun r s hs => by
    obtain ⟨rfl, hs⟩ := hs
    exact ⟨rfl, hs⟩)

/-! ## Calls at the node -/

/-- The node sees the owners `O` and reaches whom it knows. -/
def Ready (t : Retried K V) (O : List NodeId) (s : MapCluster K V) : Prop :=
  t.owners s.view = O ∧ t.Addressed s.view

/-- A call that answers `Ok` leaves the value at every backup. -/
def Acknowledged (t : Retried K V) (r : Result Unit) (s : MapCluster K V) : Prop := r = .ok () → t.Carried s

omit [Json V] in
theorem ready_stable (O : List NodeId) : Stable (t.Relies .call) (t.Ready O) :=
  fun _ _ h hs => ⟨h.owners.trans hs.1, h.addressed hs.2⟩

omit [Json V] in
theorem carried_stable : Stable (t.Relies .call) t.Carried :=
  fun _ _ h hs b hb => h.held b (hs b (h.owners ▸ hb))

omit [Json V] in
theorem acknowledged_stable (r : Result Unit) : Stable (t.Relies .call) (t.Acknowledged r) :=
  fun s s' h hs hr => carried_stable s s' h (hs hr)

theorem replicate_to_backup_does {O : List NodeId} {P : MapCluster K V → Prop} (hP : Stable (t.Relies .call) P)
    (hready : ∀ s, P s → t.Ready O s) {b : NodeId} (hb : b ∈ O.tail) :
    t.Does .call P (replicate_to_backup t.n b t.partition t.op_id t.key t.value) fun r s =>
      r = .ok () → P s ∧ t.Holds b s := by
  have hD : Stable (t.Relies .call) fun s => P s ∧ t.Holds b s :=
    fun _ _ hR hs => ⟨hP _ _ hR hs.1, holds_stable .call b _ _ hR hs.2⟩
  -- refused at `b` is done at `b`, also if that is the node itself
  have hdone : ∀ s, P s → t.Done b s → P s ∧ t.Holds b s := fun s hs hd => by
    refine ⟨hs, ?_⟩
    unfold Done at hd
    split at hd
    · exact hd b ((hready s hs).1 ▸ hb)
    · exact hd
  have hserve : ∀ text, Json.to_json t.value = .ok text →
      t.Does .call P (handle_replicate (K := K) (V := V) b ⟨t.partition, t.op_id, Key.to_string t.key, text⟩) fun c s =>
        c = .OK ∧ P s ∧ t.Holds b s :=
    fun text htext => handle_replicate_does hP hD hdone (fun s hs h => ⟨hs, h⟩) htext
  refine triple_post_write hP (fun r s s' hR hs hr => hD s s' hR (hs hr)) ?_ ?_ ?_ ?_ ?_ ?_
  · exact fun s _ _ hr => nomatch hr
  · exact fun s node hs hnode => (hready s hs).2 b ((hready s hs).1 ▸ hb) node hnode
  · exact fun s addr req hs => ⟨keeps_send s t.n addr req, hP _ _ (keeps_send s t.n addr req .call) hs⟩
  · exact fun s node _ _ _ e s' _ hr => nomatch hr
  · intro text htext
    refine (hserve text htext).post fun c s hs => ?_
    obtain ⟨rfl, hs⟩ := hs
    exact fun _ => hs
  · exact fun _ text htext => (hserve text htext).post fun c s hs => hs.2.1

theorem replicate_all_does (O : List NodeId) :
    t.Does .call (t.Ready O) (replicate_all t.n t.partition t.op_id t.key t.value O.tail) t.Acknowledged := by
  -- while `rest` remains, the backups before it hold the value
  let P (rest : List NodeId) (s : MapCluster K V) : Prop :=
    ∃ D, D ++ rest = O.tail ∧ (∀ d ∈ D, t.Holds d s) ∧ t.Ready O s
  refine Triple.pre (triple_replicate_all (P := P) acknowledged_stable ?_ ?_ O.tail) fun s hs =>
    ⟨[], rfl, by simp, hs⟩
  · rintro b rest s ⟨D, hD, hheld, hready⟩
    have hstable : Stable (t.Relies .call) fun s => (∀ d ∈ D, t.Holds d s) ∧ t.Ready O s :=
      fun s s' hR hs => ⟨fun d hd => holds_stable .call d s s' hR (hs.1 d hd), ready_stable O s s' hR hs.2⟩
    have hb : b ∈ O.tail := by simp [← hD]
    refine wp_mono ?_ (replicate_to_backup_does hstable (fun s hs => hs.2) hb s ⟨hheld, hready⟩)
    intro r s' hr
    cases r with
    | error e => exact fun he => nomatch he
    | ok _ =>
      obtain ⟨⟨hheld', hready'⟩, hb'⟩ := hr rfl
      refine ⟨D ++ [b], by simp [← hD], fun d hd => ?_, hready'⟩
      rcases List.mem_append.1 hd with hd | hd
      · exact hheld' d hd
      · exact List.mem_singleton.1 hd ▸ hb'
  · rintro s ⟨D, hD, hheld, hready⟩ -
    rw [List.append_nil] at hD
    intro b hb
    rw [hready.1, ← hD] at hb
    exact hheld b hb

omit [Json V] in
/-- The check at the node lets the write through, or the backups have the value. -/
theorem call_does {O : List NodeId} {p : MapM K V (Result Unit)}
    (hp : t.Does .call (t.Ready O) p t.Acknowledged) :
    t.Does .call (t.Ready O) (do if ← should_process t.n t.op_id then p else pure (.ok ())) t.Acknowledged := by
  refine (should_process_does (ready_stable O) carried_stable (m := t.n) fun s _ hd => ?_).bind fun b => ?_
  · rw [Done, if_pos rfl] at hd
    exact hd
  · cases b with
    | true => exact hp
    | false => exact Triple.pure (acknowledged_stable _) fun s hs _ => hs

omit [Json V] in
theorem triple_owners (O : List NodeId) :
    t.Does .call (t.Ready O) (get_owners t.cfg t.n t.partition) fun owners s => owners = O ∧ t.Ready O s :=
  triple_get_owners (ready_stable O) (fun _ => (ready_stable O).assume _) fun _ hs => ⟨hs.1, hs⟩

theorem store_as_primary_does (O : List NodeId) :
    t.Does .call (t.Ready O) (store_as_primary t.cfg t.n t.partition t.op_id t.key t.value) t.Acknowledged := by
  refine call_does ((store_local_does (ready_stable O) t.n).bind fun _ => ?_)
  refine ((triple_owners O).pre fun s hs => hs.1).bind fun owners => Triple.assume fun howners => ?_
  rw [howners]
  exact replicate_all_does O

theorem put_with_op_does {O : List NodeId} (hO : O.head? = some t.n) :
    t.Does .call (t.Ready O) (put_with_op t.cfg t.n t.key t.value t.op_id) t.Acknowledged := by
  refine call_does ((triple_owners O).bind fun owners => Triple.assume fun howners => ?_)
  subst howners
  cases owners with
  | nil => cases hO
  | cons primary backups =>
    obtain rfl : primary = t.n := Option.some.inj hO
    simp only [ne_eq, not_true_eq_false, if_false]
    exact ((store_local_does (ready_stable _) t.n).bind fun _ =>
      (replicate_all_does (t.n :: backups)).pre fun s hs => hs.1)

end Programs

/-! ## Calls beside each other -/

section Pool

/-- What a call answers: a result, or a status to another node. -/
inductive Answer
  | result (r : Result Unit)
  | status (code : StatusCode)
  deriving DecidableEq

def Answer.acknowledged : Answer → Prop
  | .result r => r = .ok ()
  | .status code => code.is_success = true

variable [Json V]

/-- Calls may start at the node whenever it is the primary, by `put_with_op`,
`store_as_primary` or a forwarded request; a replication request may arrive
anywhere at any time. -/
inductive Spawned (t : Retried K V) : MapCluster K V → Pool Party (MapI K V) Answer → Party → MapM K V Answer → Prop
  | put {s l} : (t.owners s.view).head? = some t.n → t.Addressed s.view →
      Spawned t s l .call (.result <$> put_with_op t.cfg t.n t.key t.value t.op_id)
  | store {s l} : (t.owners s.view).head? = some t.n → t.Addressed s.view →
      Spawned t s l .call (.result <$> store_as_primary t.cfg t.n t.partition t.op_id t.key t.value)
  | forward {s l text} : Json.to_json t.value = .ok text → (t.owners s.view).head? = some t.n → t.Addressed s.view →
      Spawned t s l .call (.status <$> handle_forward_put (K := K) (V := V) t.cfg t.n
        ⟨t.partition, t.op_id, Key.to_string t.key, text⟩)
  | replicate {s l text} (m) : Json.to_json t.value = .ok text →
      Spawned t s l .handler (.status <$> handle_replicate (K := K) (V := V) m
        ⟨t.partition, t.op_id, Key.to_string t.key, text⟩)

/-- The rest of the cluster writes no other value for the key, and leaves the
node's owners alone while a call goes on. -/
def Env (t : Retried K V) (s : MapCluster K V) (l : Pool Party (MapI K V) Answer) (s' : MapCluster K V) : Prop :=
  t.Kept s s' ∧ ((∃ ip ∈ l, ip.1 = .call) → t.Steady s s')

/-- What each party has done at its end. -/
def Achieved (t : Retried K V) : Party → Answer → MapCluster K V → Prop
  | .call, answer, s => answer.acknowledged → t.Carried s
  | .handler, _, _ => True

theorem spawned_does {s : MapCluster K V} {l : Pool Party (MapI K V) Answer} {j : Party} {p : MapM K V Answer}
    (h : t.Spawned s l j p) : wp t.Careful (t.Relies j) t.Keeps p (t.Achieved j) s := by
  have hstable : ∀ answer : Answer, Stable (t.Relies .call) fun s => answer.acknowledged → t.Carried s :=
    fun _ _ _ hR hs ha => carried_stable _ _ hR (hs ha)
  cases h with
  | put hprimary haddr =>
    refine Triple.bind (put_with_op_does hprimary) (fun r => Triple.pure (hstable _) fun s hs hr => hs hr) s
      ⟨rfl, haddr⟩
  | store hprimary haddr =>
    refine Triple.bind (store_as_primary_does _) (fun r => Triple.pure (hstable _) fun s hs hr => hs hr) s
      ⟨rfl, haddr⟩
  | forward htext hprimary haddr =>
    have hforward : t.Does .call (t.Ready (t.owners s.view)) (handle_forward_put (K := K) (V := V) t.cfg t.n
        ⟨t.partition, t.op_id, Key.to_string t.key, _⟩) fun c s => c.is_success = true → t.Carried s :=
      triple_handle_write (fun c s s' hR hs hc => carried_stable s s' hR (hs hc)) htext
        ((store_as_primary_does _).post fun r s hs => by
          cases r with
          | ok _ => exact fun _ => hs rfl
          | error e => exact fun hc => nomatch hc)
    exact Triple.bind hforward (fun c => Triple.pure (hstable _) fun s hs hc => hs hc) s ⟨rfl, haddr⟩
  | replicate m htext =>
    have htrue : Stable (t.Relies .handler) fun _ => True := fun _ _ _ _ => trivial
    have hreplicate := handle_replicate_does (t := t) (j := .handler) htrue htrue (fun _ _ _ => trivial)
      (fun _ _ _ => trivial) (m := m) htext
    exact Triple.bind hreplicate (fun c => Triple.pure (fun _ _ _ _ => trivial) fun _ _ => trivial) s trivial

/-- While the operation is refused only where its work is done, an acknowledged
call finds the value at every backup. -/
theorem carried_of_careful {s₀ s : MapCluster K V} {l : Pool Party (MapI K V) Answer}
    (h : Pool.Steps (fun _ => t.Careful) t.Spawned t.Env (s₀, []) (s, l)) {answer : Answer}
    (hdone : (Party.call, Async.done answer) ∈ l) (hok : answer.acknowledged) : t.Carried s := by
  have hsafe : Pool.Safe (fun _ => t.Careful) t.Relies t.Achieved (s, l) :=
    Pool.safe_steps (fun _ _ _ _ hsp => spawned_does hsp)
      (fun s l s' henv ip hip => by
        obtain ⟨j, p⟩ := ip
        cases j with
        | call => exact henv.2 ⟨_, hip, rfl⟩
        | handler => exact henv.1)
      h (fun ip hip => by cases hip)
  exact hsafe.done hdone hok

end Pool

/-! ## Where the operation has been let through -/

/-- A call or a handler has recorded the operation at a node, or stored the value there. -/
inductive Event
  | recorded (m : NodeId)
  | stored (m : NodeId)
  deriving DecidableEq

/-- The log of these events, the last one first. -/
def event : MapAct K V → List Event → List Event
  | .insert_op m _, log => .recorded m :: log
  | .store_local m _ _ _, log => .stored m :: log
  | _, log => log

/-- The node has let the operation through, and whoever it let through has gone on to store. -/
def LetThrough (m : NodeId) (log : List Event) : Prop :=
  .recorded m ∈ log ∧ log.count (.recorded m) = log.count (.stored m)

section Schedules

variable (t : Retried K V)

/-- When the node finds the operation recorded, every backup of the moment has let
it through; when another node finds it recorded, that node itself has. -/
def Timely : (e : MapAct K V) → MapCluster K V × List Event → (MapI K V).Ans e → Prop
  | .contains_op m op_id, (s, log), _ => op_id = t.op_id → s.recorded m op_id →
    ∀ b ∈ (if m = t.n then (t.owners s.view).tail else [m]), LetThrough b log
  | _, _, _ => True

/-- Steps over a lossy network in which the operation is only found recorded in time. -/
abbrev TimelySem : Sem (MapI K V) (MapCluster K V × List Event) := ((MapSem t.cfg .lossy).logging event).restrict t.Timely

/-- Runs of calls and handlers with such steps. -/
abbrev TimelySteps [Json V] : (MapCluster K V × List Event) × Pool Party (MapI K V) Answer →
    (MapCluster K V × List Event) × Pool Party (MapI K V) Answer → Prop :=
  Pool.Steps (fun _ => t.TimelySem) (fun c => t.Spawned c.1) fun c l c' => t.Env c.1 l c'.1 ∧ c'.2 = c.2

/-- Where the value was stored it still is. -/
def Traced (c : MapCluster K V × List Event) : Prop := ∀ m, Event.stored m ∈ c.2 → t.Holds m c.1

/-- The parties store nothing but the value. -/
def writing : Discipline (MapI K V) Unit :=
  .only fun e => match e with
    | .store_local _ p key value => p = t.partition ∧ key = t.key ∧ value = t.value
    | _ => True

end Schedules

omit [DecidableEq K] in
theorem writing_allows : AllowsWrite t.writing (fun _ => True) t.partition t.op_id t.key t.value where
  member _ _ _ := ⟨trivial, fun _ _ => trivial⟩
  send _ _ _ _ _ _ := ⟨trivial, fun _ _ => trivial⟩
  store _ _ _ := ⟨⟨rfl, rfl, rfl⟩, fun _ _ => trivial⟩
  check _ _ hg := obeys_should_process (fun _ _ => ⟨trivial, fun _ _ => trivial⟩) (fun _ _ => ⟨trivial, fun _ _ => trivial⟩)
    (fun _ _ => ⟨trivial, fun _ _ => trivial⟩) (fun _ _ => ⟨trivial, fun _ _ => trivial⟩) hg

omit [DecidableEq K] in
theorem spawned_writes [Json V] {s : MapCluster K V} {l : Pool Party (MapI K V) Answer} {j : Party} {p : MapM K V Answer}
    (h : t.Spawned s l j p) : Obeys t.writing p () fun _ _ => True := by
  cases h with
  | put _ _ => exact (writing_allows.obeys_put_with_op trivial).bind fun _ _ _ => Obeys.pure trivial
  | store _ _ => exact (writing_allows.obeys_store_as_primary trivial).bind fun _ _ _ => Obeys.pure trivial
  | forward htext _ _ =>
    exact (obeys_handle_write htext (writing_allows.obeys_store_as_primary trivial)).bind fun _ _ _ => Obeys.pure trivial
  | replicate m htext =>
    exact (obeys_handle_write htext (writing_allows.obeys_store_replica trivial)).bind fun _ _ _ => Obeys.pure trivial

theorem LetThrough.holds {c : MapCluster K V × List Event} {m : NodeId} (hm : LetThrough m c.2) (h : t.Traced c) :
    t.Holds m c.1 := by
  obtain ⟨hrecorded, hstored⟩ := hm
  have hpos : 0 < c.2.count (.recorded m) := List.count_pos_iff.2 hrecorded
  rw [hstored] at hpos
  exact h m (List.count_pos_iff.1 hpos)

theorem traced_act {c : MapCluster K V × List Event} {e : MapAct K V} {x : (MapI K V).Ans e} {s' : MapCluster K V}
    (h : t.Traced c) (hmay : t.writing.may () e) (hstep : MapSem t.cfg .lossy e c.1 x s') : t.Traced (s', event e c.2) := by
  intro m hm
  cases e with
  | clear_ops n =>
    obtain rfl := hstep
    exact (keeps_clear_ops c.1 n .handler).held m (h m hm)
  | insert_op n op_id =>
    obtain rfl := hstep
    exact (keeps_insert_op c.1 n op_id .handler).held m (h m (by simpa [event] using hm))
  | store_local n p key value =>
    obtain rfl := hstep
    obtain ⟨rfl, rfl, rfl⟩ := hmay
    rcases List.mem_cons.1 hm with heq | hm
    · cases heq
      exact holds_store_local c.1 m
    · exact (keeps_store_local c.1 n .handler).held m (h m hm)
  | _ =>
    obtain ⟨-, rfl⟩ := hstep
    exact h m hm

/-- A timely step refuses the operation only where its work is done. -/
theorem careful_of_timely {c c' : MapCluster K V × List Event} {e : MapAct K V} {x : (MapI K V).Ans e} (h : t.Traced c)
    (hstep : t.TimelySem e c x c') : t.Careful e c.1 x c'.1 := by
  obtain ⟨⟨hact, -⟩, htimely⟩ := hstep
  refine ⟨hact, ?_⟩
  cases e with
  | contains_op m op_id =>
    intro hop hfound
    have hrecorded : c.1.recorded m op_id := of_decide_eq_true (hact.1.symm.trans hfound)
    have hthrough := htimely hop hrecorded
    unfold Done
    split
    · rename_i hm
      rw [if_pos hm] at hthrough
      exact fun b hb => (hthrough b hb).holds h
    · rename_i hm
      rw [if_neg hm] at hthrough
      exact (hthrough m List.mem_cons_self).holds h
  | _ => trivial

/-- The value stays where a timely run has stored it. -/
theorem traced_step [Json V] {c c' : (MapCluster K V × List Event) × Pool Party (MapI K V) Answer}
    (h : Pool.Step (fun _ => t.TimelySem) (fun c => t.Spawned c.1) (fun c l c' => t.Env c.1 l c'.1 ∧ c'.2 = c.2) c c')
    (hc : Pool.Tracked (fun _ => t.writing) (fun c _ => t.Traced c) (fun _ _ _ => True) c) :
    Pool.Tracked (fun _ => t.writing) (fun c _ => t.Traced c) (fun _ _ _ => True) c' := by
  refine Pool.tracked_step (fun _ c g gs e x c' hc hmay hact => ⟨trivial, ?_⟩) (fun _ _ _ hc => hc)
    (fun c l j p hl hspawn => hl.join (spawned_writes hspawn) fun _ hc => hc) (fun c l c' gs hc henv m hm => ?_) h hc
  · obtain ⟨⟨hact, hlog⟩, -⟩ := hact
    have htraced := traced_act hc hmay hact
    rw [← hlog] at htraced
    exact htraced
  · obtain ⟨henv, hlog⟩ := henv
    rw [hlog] at hm
    exact henv.1.held m (hc m hm)

/-- However calls and handlers interleave, and whatever the network loses: when the
operation is only found recorded in time, an acknowledged call finds the value at
every backup. -/
theorem acknowledged_carried [Json V] {s₀ : MapCluster K V} {c : MapCluster K V × List Event}
    {l : Pool Party (MapI K V) Answer} (h : t.TimelySteps ((s₀, []), []) (c, l))
    {answer : Answer} (hdone : (Party.call, Async.done answer) ∈ l) (hok : answer.acknowledged) : t.Carried c.1 := by
  have hstart : t.Traced (s₀, []) := fun m hm => absurd hm List.not_mem_nil
  have hsteps : Pool.Steps (fun _ => t.Careful) t.Spawned t.Env (s₀, []) (c.1, l) :=
    (Pool.Tracked.image Prod.fst (fun _ _ => traced_step) (fun _ c g gs e x c' hc _ hact => careful_of_timely hc hact)
      (fun _ _ _ _ hspawn => hspawn) (fun _ _ _ henv => henv.1) h (Pool.tracked_nil hstart)).1
  exact carried_of_careful hsteps hdone hok

section Example

open CompactJson

instance (t : Retried K V) [DecidableEq V] (s : MapCluster K V) : Decidable (t.Carried s) :=
  inferInstanceAs (Decidable (∀ b ∈ (t.owners s.view).tail, s.stored b t.partition t.key = some t.value))

instance (m : NodeId) (log : List Event) : Decidable (LetThrough m log) := inferInstanceAs (Decidable (_ ∧ _))

instance (t : Retried K V) : (e : MapAct K V) → (c : MapCluster K V × List Event) → (x : (MapI K V).Ans e) → Decidable (t.Timely e c x)
  | .contains_op m op_id, (s, log), _ => inferInstanceAs (Decidable (op_id = t.op_id → s.recorded m op_id →
      ∀ b ∈ (if m = t.n then (t.owners s.view).tail else [m]), LetThrough b log))
  | .count_ops _, _, _ | .clear_ops _, _, _ | .insert_op _ _, _, _ | .store_local .., _, _ | .lookup .., _, _
  | .dump_partition .., _, _ | .has_partition .., _, _ | .membership _, _, _ | .new_uuid _, _, _ | .iterate .., _, _
  | .send .., _, _ => .isTrue trivial

/-- Calls at node a, the primary of `"k"`. -/
def at_primary : Retried String Bool := ⟨pair_cfg, node_a, "op", "k", true⟩

def put_at_primary : MapM String Bool Answer := .result <$> put_with_op pair_cfg node_a "k" true "op"

def unwritten_pair : MapCluster String Bool := MapCluster.empty (demo_view pair)

/-- A call may start where everybody sees the pair. -/
theorem spawned_put {s : MapCluster String Bool} {l : Pool Party (MapI String Bool) Answer} (hview : s.view = demo_view pair) :
    at_primary.Spawned s l .call put_at_primary := by
  have hagreed : Agreed pair_cfg pair s.view := hview ▸ agreed_demo 2 (by decide) (by decide)
  refine .put ?_ (addressed_of_agreed hagreed (show node_a ∈ pair.ids by decide))
  rw [hview]
  decide +kernel

/-- Every request is handled, and every answer gets lost. -/
def unheard (n : NodeId) (addr : SocketAddr) : Fate NodeId :=
  match pair_cfg.host n addr with
  | some m => .unheard m
  | none => .lost

theorem allows_unheard (n : NodeId) (addr : SocketAddr) : Network.lossy.allows (pair_cfg.host n) addr (unheard n addr) := by
  unfold unheard
  cases h : pair_cfg.host n addr with
  | none => exact .inl h
  | some m => exact ⟨h, rfl⟩

abbrev unheard_log : (e : MapAct String Bool) → MapCluster String Bool × List Event →
    (MapI String Bool).Ans e × (MapCluster String Bool × List Event) :=
  logged (I := MapI String Bool) (MapInt unheard) event

def first_call : Answer × (MapCluster String Bool × List Event) := exec unheard_log put_at_primary (unwritten_pair, [])
def second_call : Answer × (MapCluster String Bool × List Event) := exec unheard_log put_at_primary first_call.2

theorem first_timely : Meets unheard_log at_primary.Timely put_at_primary (unwritten_pair, []) := by decide +kernel
theorem second_timely : Meets unheard_log at_primary.Timely put_at_primary first_call.2 := by decide +kernel

/-- The backup handles the replication of the first call, which hears nothing and
fails; the retry is answered `Ok` at once, and the backup has the value. -/
theorem acknowledged_carried_retry :
    first_call.1 ≠ .result (.ok ()) ∧ second_call.1 = .result (.ok ()) ∧ at_primary.Carried second_call.2.1 := by
  have hint : ∀ e c, ((MapSem pair_cfg .lossy).logging event) e c (unheard_log e c).1 (unheard_log e c).2 :=
    logged_sem (I := MapI String Bool) (MapInt_sem allows_unheard) event
  have hview : first_call.2.1.view = demo_view pair := by
    rw [first_call, (exec_logged (MapInt unheard) event put_at_primary (unwritten_pair, [])).2, view_exec]
    rfl
  have hfirst : at_primary.TimelySteps ((unwritten_pair, []), []) (first_call.2, [(.call, .done first_call.1)]) :=
    .head (.spawn _ _ (spawned_put rfl))
      (Pool.steps_of_runs (S := fun _ => at_primary.TimelySem) (i := Party.call) (first_timely.runs hint) [] [])
  have hsecond : at_primary.TimelySteps (first_call.2, [(.call, .done first_call.1)])
      (second_call.2, [(.call, .done second_call.1), (.call, .done first_call.1)]) :=
    .head (.spawn _ _ (spawned_put hview))
      (Pool.steps_of_runs (S := fun _ => at_primary.TimelySem) (i := Party.call) (second_timely.runs hint) []
        [(.call, .done first_call.1)])
  have hok : second_call.1 = .result (.ok ()) := by decide +kernel
  refine ⟨by decide +kernel, hok, acknowledged_carried (hfirst.trans hsecond) List.mem_cons_self ?_⟩
  rw [hok]
  rfl

/-- A call is made and runs to its end while nothing else happens. -/
theorem steps_of_call {S : Sem (MapI String Bool) (MapCluster String Bool)} {s s' : MapCluster String Bool}
    {l : Pool Party (MapI String Bool) Answer} {answer : Answer} (hview : s.view = demo_view pair)
    (h : Runs S Eq put_at_primary s answer s') :
    Pool.Steps (fun _ => S) at_primary.Spawned at_primary.Env (s, l) (s', (.call, .done answer) :: l) :=
  .head (.spawn _ _ (spawned_put hview)) (Pool.steps_of_runs h [] l)

/-- The replication of the first call is lost, which answers an error; the second
call is answered `Ok` at once. -/
theorem retry_acknowledged_without_copy :
    ¬ ∀ (t : Retried String Bool) (ring : NodeRing NodeId) (view : NodeId → MembershipService)
      (s : MapCluster String Bool) (l : Pool Party (MapI String Bool) Answer) (answer : Answer),
      Agreed t.cfg ring view →
      Pool.Steps (fun _ => MapSem t.cfg .lossy) t.Spawned t.Env (MapCluster.empty view, []) (s, l) →
      (Party.call, Async.done answer) ∈ l → answer.acknowledged → t.Carried s := by
  intro h
  let lost := exec (MapInt all_lost) put_at_primary unwritten_pair
  let again := exec (MapInt all_lost) put_at_primary lost.2
  have hlost : Runs (MapSem pair_cfg .lossy) Eq put_at_primary unwritten_pair lost.1 lost.2 :=
    exec_runs (MapInt_sem allows_all_lost) _ _
  have hagain : Runs (MapSem pair_cfg .lossy) Eq put_at_primary lost.2 again.1 again.2 :=
    exec_runs (MapInt_sem allows_all_lost) _ _
  have hsteps := (steps_of_call (l := []) rfl hlost).trans (steps_of_call (view_exec _ _) hagain)
  have hok : again.1 = .result (.ok ()) := by decide +kernel
  have hcarried := h at_primary pair (demo_view pair) again.2 _ again.1 (agreed_demo 2 (by decide) (by decide)) hsteps
    List.mem_cons_self (hok ▸ rfl)
  exact absurd hcarried (by decide +kernel)

end Example

end Retried
end DistributedMap
