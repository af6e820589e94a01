import DistributedCluster.Storage.Conduct
import DistributedCluster.Storage.Sync
/-!
# Every key in its partition

A receiver stores under the partition the message names, a reader looks under
the partition of the key. Nobody checks that the two agree: every program sends
and stores under the partition of the key, and so does what arrives from it.
-/

namespace DistributedMap

open Async

variable {K V : Type}

/-- What a process on a node is for. -/
inductive Job (K V : Type)
  | put (n : NodeId) (key : K) (value : V)
  | put_local (n : NodeId) (key : K) (value : V)
  | get (n : NodeId) (key : K)
  /-- a client's request to `/put` -/
  | put_request (n : NodeId) (req : PutRequest)
  /-- a client's request to `/get/{key}` -/
  | get_request (n : NodeId) (key_str : String)
  /-- one pass of the resync loop -/
  | resync (n : NodeId)
  /-- a request arrives at node `m` once more -/
  | arrival (m : NodeId) (req : Request)

/-- A program whose result nobody waits for. -/
def unattended {α : Type} (p : MapM K V α) : MapM K V Unit := do
  let _ ← p
  pure ()

section Runs

variable [Key K] [Json V]

/-- What node `m` does when the request arrives. -/
def serve (cfg : MapConfig) (m : NodeId) : Request → MapM K V Unit
  | .replicate req => unattended (handle_replicate (K := K) (V := V) m req)
  | .forward_put req => unattended (handle_forward_put (K := K) (V := V) cfg m req)
  | .get_internal path => unattended (route_get_internal (K := K) (V := V) cfg m path)
  | .partition_dump partition => unattended (handle_partition_dump (K := K) (V := V) m partition)

variable [DecidableEq K]

/-- What may start at a node. A request may arrive again long after it was sent. -/
inductive Started (cfg : MapConfig) (s : MapCluster K V) : Job K V → MapM K V Unit → Prop
  | put (n : NodeId) (key : K) (value : V) : Started cfg s (.put n key value) (unattended (put cfg n key value))
  | put_local (n : NodeId) (key : K) (value : V) :
    Started cfg s (.put_local n key value) (unattended (put_local cfg n key value))
  | get (n : NodeId) (key : K) : Started cfg s (.get n key) (unattended (get (V := V) cfg n key))
  | put_request (n : NodeId) (req : PutRequest) :
    Started cfg s (.put_request n req) (unattended (handle_put (K := K) (V := V) cfg n req))
  | get_request (n : NodeId) (key_str : String) :
    Started cfg s (.get_request n key_str) (unattended (handle_get (K := K) (V := V) cfg n key_str))
  | resync (n : NodeId) : Started cfg s (.resync n) (unattended (sync_partitions (K := K) (V := V) cfg n))
  | arrival {n addr req m} : (n, addr, req) ∈ s.sent → cfg.host n addr = some m →
    Started cfg s (.arrival m req) (serve cfg m req)

/-- Runs of everything that uses the map, while nodes come and go. -/
abbrev MapSteps (cfg : MapConfig) (net : Network) :
    MapCluster K V × Pool (Job K V) (MapI K V) Unit → MapCluster K V × Pool (Job K V) (MapI K V) Unit → Prop :=
  Pool.Steps (fun _ => MapSem cfg net) (fun s _ => Started cfg s) fun s _ s' => ∃ view, s' = { s with view }

/-- The states of runs that start with an empty map. -/
def Reachable (cfg : MapConfig) (net : Network) (s : MapCluster K V) : Prop :=
  ∃ view l, MapSteps cfg net (.empty view, []) (s, l)

end Runs

/-! ## What a program may do -/

/-- The key that the request carries lies where the request says. -/
def Request.Placed (K : Type) [Key K] (cfg : MapConfig) : Request → Prop
  | .replicate req => ∀ key : K, Key.from_str req.key = .ok key → req.partition = cfg.partition_of key
  | .forward_put req => ∀ key : K, Key.from_str req.key = .ok key → req.partition = cfg.partition_of key
  | .get_internal _ | .partition_dump _ => True

variable [Key K]

def PlacedEntries (cfg : MapConfig) (partition : Nat) (entries : List (K × V)) : Prop :=
  ∀ e ∈ entries, partition = cfg.partition_of e.1

def placing (cfg : MapConfig) : Discipline (MapI K V) Unit where
  may _
    | .store_local _ partition key _ => partition = cfg.partition_of key
    | .send _ _ req _ => Request.Placed K cfg req
    | _ => True
  gives _
    | .dump_partition _ partition, entries => PlacedEntries cfg partition entries
    | _, _ => True
  next _ _ _ := ()

section Programs

variable {cfg : MapConfig} {n m : NodeId} {p : Nat} {key : K} {value : V} {op_id : String}

/-- The program stores and sends keys under their partitions only. -/
abbrev Places {α : Type} (cfg : MapConfig) (p : MapM K V α) (Q : α → Prop) : Prop :=
  Obeys (placing cfg) p () fun a _ => Q a

theorem places_read (e : MapAct K V) (h : (placing cfg).may () e) : Places cfg (act e) fun _ => True :=
  Obeys.perform h fun _ _ => trivial

theorem should_process_places : Places cfg (should_process (K := K) (V := V) n op_id) fun _ => True := by
  refine (places_read (.contains_op n op_id) trivial).bind fun found _ _ => ?_
  cases found with
  | true => exact Obeys.pure trivial
  | false =>
    refine Obeys.bind (Q := fun _ _ => True) ?_ fun _ _ _ => ?_
    · refine (places_read (.count_ops n) trivial).bind fun count _ _ => ?_
      split
      · exact places_read (.clear_ops n) trivial
      · exact Obeys.pure trivial
    · exact (places_read (.insert_op n op_id) trivial).bind fun _ _ _ => Obeys.pure trivial

theorem store_replica_places (hp : p = cfg.partition_of key) :
    Places cfg (store_replica n p op_id key value) fun _ => True := by
  refine should_process_places.bind fun b _ _ => ?_
  cases b with
  | false => exact Obeys.pure trivial
  | true => exact (places_read (.store_local n p key value) hp).bind fun _ _ _ => Obeys.pure trivial

theorem placing_membership (n : NodeId) : (placing (K := K) (V := V) cfg).Free (fun _ => True) (.membership n) :=
  fun _ _ => ⟨trivial, fun _ _ => trivial⟩

theorem placing_send (n : NodeId) (addr : SocketAddr) {req : Request} (i : Nat) (h : Request.Placed K cfg req) :
    (placing (K := K) (V := V) cfg).Free (fun _ => True) (.send n addr req i) :=
  fun _ _ => ⟨h, fun _ _ => trivial⟩

/-- What is printed under its partition is parsed under its partition. -/
theorem placed_key (hp : p = cfg.partition_of key) (k : K) (hk : Key.from_str (Key.to_string key) = .ok k) :
    p = cfg.partition_of k := by
  rw [Key.from_str_to_string] at hk
  cases hk
  exact hp

theorem get_owners_places (n : NodeId) (p : Nat) :
    Places cfg (get_owners (K := K) (V := V) cfg n p) fun _ => True :=
  obeys_get_owners (placing_membership n) trivial

section Requests

variable [Json V]

theorem handle_write_places {key_str value_json : String} {write : K → V → MapM K V (Result Unit)}
    (h : ∀ key value, Key.from_str key_str = .ok key → Places cfg (write key value) fun _ => True) :
    Places cfg (handle_write key_str value_json write) fun _ => True := by
  unfold handle_write parse_write
  cases hkey : (Key.from_str key_str : Except String K) with
  | error e => exact Obeys.pure trivial
  | ok key =>
    cases (Json.from_json value_json : Except String V) with
    | error e => exact Obeys.pure trivial
    | ok value =>
      refine (h key value hkey).bind fun r _ _ => ?_
      cases r <;> exact Obeys.pure trivial

theorem replicate_all_places (hp : p = cfg.partition_of key) (backups : List NodeId) :
    Places cfg (replicate_all n p op_id key value backups) fun _ => True :=
  obeys_replicate_all (P := fun _ => True) (placing_membership n) (fun addr _ i => placing_send n addr i (placed_key hp))
    (fun _ _ _ => store_replica_places hp) trivial

theorem store_as_primary_places (hp : p = cfg.partition_of key) :
    Places cfg (store_as_primary cfg n p op_id key value) fun _ => True := by
  refine should_process_places.bind fun b _ _ => ?_
  cases b with
  | false => exact Obeys.pure trivial
  | true =>
    refine (places_read (.store_local n p key value) hp).bind fun _ _ _ => ?_
    exact (get_owners_places n p).bind fun owners _ _ => replicate_all_places hp owners.tail

theorem put_with_op_places : Places cfg (put_with_op cfg n key value op_id) fun _ => True := by
  refine should_process_places.bind fun b _ _ => ?_
  cases b with
  | false => exact Obeys.pure trivial
  | true =>
    refine (get_owners_places n _).bind fun owners _ _ => ?_
    have hstore : Places cfg (store_local n (cfg.partition_of key) key value) fun _ => True :=
      places_read (.store_local n _ key value) rfl
    cases owners with
    | nil => exact hstore.bind fun _ _ _ => Obeys.pure trivial
    | cons primary backups =>
      dsimp only
      split
      · refine obeys_post_write (P := fun _ => True) (placing_membership n)
          (fun addr _ i => placing_send n addr i (placed_key rfl)) (fun value_json m g hjson _ => ?_) trivial
        exact obeys_handle_write hjson (store_as_primary_places rfl)
      · exact hstore.bind fun _ _ _ => replicate_all_places rfl backups

theorem put_places : Places cfg (put cfg n key value) fun _ => True :=
  (places_read (.new_uuid n) trivial).bind fun _ _ _ => put_with_op_places

theorem put_local_places : Places cfg (put_local cfg n key value) fun _ => True := by
  refine (places_read (.store_local n (cfg.partition_of key) key value) rfl).bind fun _ _ _ => ?_
  refine (get_owners_places n _).bind fun owners _ _ => ?_
  split
  · exact (places_read (.new_uuid n) trivial).bind fun _ _ _ => replicate_all_places rfl owners.tail
  · exact Obeys.pure trivial

theorem handle_get_internal_places (key_str : String) :
    Places cfg (handle_get_internal (K := K) (V := V) cfg m key_str) fun _ => True := by
  unfold handle_get_internal
  cases (Key.from_str key_str : Except String K) with
  | error e => exact Obeys.pure trivial
  | ok key => exact (places_read (.lookup m _ key) trivial).bind fun _ _ _ => Obeys.pure trivial

theorem route_get_internal_places (path : String) :
    Places cfg (route_get_internal (K := K) (V := V) cfg m path) fun _ => True := by
  unfold route_get_internal
  cases cfg.route path with
  | error status => exact Obeys.pure trivial
  | ok key_str => exact handle_get_internal_places key_str

theorem fetch_remote_places : Places cfg (fetch_remote (V := V) cfg n m key) fun _ => True := by
  refine (obeys_get_member (P := fun _ => True) (placing_membership n) trivial).bind fun node _ _ => ?_
  cases node with
  | none => exact Obeys.pure trivial
  | some node =>
    have hreq : Request.Placed K cfg (.get_internal (Key.to_string key)) := trivial
    refine (obeys_request (P := fun _ => True) (fun i => placing_send n _ i hreq)
      (fun m _ _ => route_get_internal_places _) trivial 3).bind fun r _ _ => ?_
    cases r <;> exact Obeys.pure trivial

theorem fetch_first_places (owners : List NodeId) : Places cfg (fetch_first (V := V) cfg n key owners) fun _ => True := by
  induction owners with
  | nil => exact Obeys.pure trivial
  | cons owner owners ih =>
    refine fetch_remote_places.bind fun r _ _ => ?_
    split
    · exact Obeys.pure trivial
    · exact ih

theorem get_places : Places cfg (get (V := V) cfg n key) fun _ => True := by
  refine (places_read (.lookup n _ key) trivial).bind fun found _ _ => ?_
  cases found with
  | some value => exact Obeys.pure trivial
  | none =>
    refine (get_owners_places n _).bind fun owners _ _ => ?_
    cases owners with
    | nil => exact Obeys.pure trivial
    | cons primary backups =>
      dsimp only
      split <;> exact fetch_first_places _

theorem handle_get_places (key_str : String) : Places cfg (handle_get (K := K) (V := V) cfg m key_str) fun _ => True := by
  unfold handle_get
  cases (Key.from_str key_str : Except String K) with
  | error e => exact Obeys.pure trivial
  | ok key => exact get_places.bind fun _ _ _ => Obeys.pure trivial

/-! ## Resyncs -/

omit [Json V] in
theorem apply_partition_entries_places {entries : List (K × V)} (h : PlacedEntries cfg p entries) :
    Places cfg (apply_partition_entries n p entries) fun _ => True := by
  induction entries with
  | nil => exact Obeys.pure trivial
  | cons e entries ih =>
    refine (places_read (.store_local n p e.1 e.2) (h e List.mem_cons_self)).bind fun _ _ _ => ?_
    exact ih fun e' he' => h e' (List.mem_cons_of_mem _ he')

theorem handle_partition_dump_places : Places cfg (handle_partition_dump (K := K) (V := V) m p) fun dump =>
    ∃ entries : List (K × V), PlacedEntries cfg p entries ∧ dump.entries = entries.filterMap entry_json :=
  Obeys.bind (Q := fun entries _ => PlacedEntries cfg p entries) (Obeys.perform trivial fun _ h => h)
    fun entries _ h => Obeys.pure ⟨entries, h, rfl⟩

theorem fetch_partition_places :
    Places cfg (fetch_partition (K := K) (V := V) n m p) fun r => ∀ entries, r = .ok entries → PlacedEntries cfg p entries := by
  refine (obeys_get_member (P := fun _ => True) (placing_membership n) trivial).bind fun node _ _ => ?_
  cases node with
  | none => exact Obeys.pure fun _ h => by cases h
  | some node =>
    have hreq : Request.Placed K cfg (.partition_dump p) := trivial
    refine (Obeys.retry (P := fun _ => True) (fun i _ _ => (placing_send n node.http_addr i hreq).obeys trivial)
      (fun m _ _ => (handle_partition_dump_places (K := K) (V := V)).mono fun _ _ h => ⟨trivial, h⟩) trivial 3).bind
      fun r _ hr => ?_
    cases r with
    | error e => exact Obeys.pure fun _ h => by cases h
    | ok dump =>
      obtain ⟨entries, hplaced, hdump⟩ := hr.2 dump rfl
      refine Obeys.pure fun parsed h => ?_
      rw [hdump, parse_entries] at h
      cases h
      exact hplaced

theorem resync_places : Places cfg (resync (K := K) (V := V) n m p) fun _ => True := by
  refine fetch_partition_places.bind fun r _ hr => ?_
  cases r with
  | error e => exact Obeys.pure trivial
  | ok entries =>
    dsimp only
    split
    · exact Obeys.pure trivial
    · exact apply_partition_entries_places (hr entries rfl)

theorem sync_partition_places : Places cfg (sync_partition (K := K) (V := V) cfg n p) fun _ => True := by
  refine (get_owners_places n p).bind fun owners _ _ => ?_
  cases owners with
  | nil => exact Obeys.pure trivial
  | cons primary backups =>
    dsimp only
    split
    · refine (places_read (.has_partition n p) trivial).bind fun found _ _ => ?_
      cases found with
      | true => exact Obeys.pure trivial
      | false =>
        cases backups with
        | nil => exact Obeys.pure trivial
        | cons source_owner _ => exact resync_places
    · exact resync_places

theorem sync_each_places (partitions : List Nat) :
    Places cfg (sync_each (K := K) (V := V) cfg n partitions) fun _ => True := by
  induction partitions with
  | nil => exact Obeys.pure trivial
  | cons p partitions ih => exact sync_partition_places.bind fun _ _ _ => ih

omit [Json V] in
theorem partitions_where_places (mine : List NodeId → Bool) :
    Places cfg (partitions_where (K := K) (V := V) cfg n mine) fun _ => True :=
  Obeys.filterM (P := fun _ => True) (fun p _ _ => (get_owners_places n p).bind fun _ _ _ => Obeys.pure trivial) trivial _

omit [Json V] in
theorem target_partitions_places : Places cfg (target_partitions (K := K) (V := V) cfg n) fun _ => True :=
  (partitions_where_places _).bind fun _ _ _ => (partitions_where_places _).bind fun _ _ _ =>
    places_read (.iterate n _) trivial

theorem sync_partitions_places : Places cfg (sync_partitions (K := K) (V := V) cfg n) fun _ => True :=
  target_partitions_places.bind fun partitions _ _ => (sync_each_places partitions).bind fun _ _ _ => Obeys.pure trivial

/-! ## Every program -/

omit [Json V] in
theorem unattended_places {α : Type} {p : MapM K V α} {Q : α → Prop} (h : Places cfg p Q) :
    Places cfg (unattended p) fun _ => True :=
  h.bind fun _ _ _ => Obeys.pure trivial

theorem serve_places (m : NodeId) {req : Request} (h : Request.Placed K cfg req) :
    Places cfg (serve (K := K) (V := V) cfg m req) fun _ => True := by
  cases req with
  | replicate req => exact unattended_places (handle_write_places fun key _ hkey => store_replica_places (h key hkey))
  | forward_put req => exact unattended_places (handle_write_places fun key _ hkey => store_as_primary_places (h key hkey))
  | get_internal path => exact unattended_places (route_get_internal_places path)
  | partition_dump p => exact unattended_places handle_partition_dump_places

theorem started_places [DecidableEq K] {s : MapCluster K V} {job : Job K V} {p : MapM K V Unit} (h : Started cfg s job p)
    (hsent : ∀ x ∈ s.sent, Request.Placed K cfg x.2.2) : Places cfg p fun _ => True := by
  cases h with
  | put n key value => exact unattended_places put_places
  | put_local n key value => exact unattended_places put_local_places
  | get n key => exact unattended_places get_places
  | put_request n req => exact unattended_places (handle_write_places fun _ _ _ => put_with_op_places)
  | get_request n key_str => exact unattended_places (handle_get_places key_str)
  | resync n => exact unattended_places sync_partitions_places
  | arrival hmem _ => exact serve_places _ (hsent _ hmem)

end Requests

end Programs

/-! ## Every run -/

/-- What is stored and what may still arrive lies in the partition of its key. -/
structure Placed [DecidableEq K] (cfg : MapConfig) (s : MapCluster K V) : Prop where
  stored : ∀ n p key value, s.stored n p key = some value → p = cfg.partition_of key
  sent : ∀ x ∈ s.sent, Request.Placed K cfg x.2.2

variable [DecidableEq K] {cfg : MapConfig} {net : Network} {s s' : MapCluster K V}

theorem placed_act (h : Placed cfg s) {e : MapAct K V} {x : (MapI K V).Ans e} (hmay : (placing cfg).may () e)
    (hact : MapSem cfg net e s x s') : (placing cfg).gives () e x ∧ Placed cfg s' := by
  cases e with
  | store_local n p key value =>
    obtain rfl : s' = s.store_local n p key value := hact
    refine ⟨trivial, fun m q k v hstored => ?_, h.sent⟩
    rw [s.stored_store_local] at hstored
    split at hstored
    · rename_i hsame
      obtain ⟨rfl, rfl, rfl⟩ := hsame
      exact hmay
    · exact h.stored m q k v hstored
  | clear_ops n =>
    obtain rfl : s' = s.clear_ops n := hact
    exact ⟨trivial, fun m q k v hstored => h.stored m q k v (s.stored_clear_ops n m q k ▸ hstored), h.sent⟩
  | insert_op n op_id =>
    obtain rfl : s' = s.insert_op n op_id := hact
    exact ⟨trivial, fun m q k v hstored => h.stored m q k v (s.stored_insert_op n m op_id q k ▸ hstored), h.sent⟩
  | new_uuid n =>
    obtain ⟨-, rfl⟩ := hact
    exact ⟨trivial, h.stored, h.sent⟩
  | send n addr req i =>
    obtain ⟨-, rfl⟩ := hact
    refine ⟨trivial, h.stored, fun y hy => ?_⟩
    rcases List.mem_cons.1 hy with rfl | hy
    · exact hmay
    · exact h.sent y hy
  | dump_partition n p =>
    obtain ⟨rfl, rfl⟩ := hact
    exact ⟨fun e he => h.stored n p e.1 e.2 (MapCluster.mem_dump_partition.1 he), h⟩
  | _ =>
    obtain ⟨-, rfl⟩ := hact
    exact ⟨trivial, h⟩

variable [Json V]

/-- Every process only stores and sends what lies where it says. -/
abbrev MapTracked (cfg : MapConfig) (c : MapCluster K V × Pool (Job K V) (MapI K V) Unit) : Prop :=
  Pool.Tracked (fun _ => placing cfg) (fun s _ => Placed cfg s) (fun _ _ _ => True) c

theorem tracked_of_steps {c c' : MapCluster K V × Pool (Job K V) (MapI K V) Unit} (h : MapSteps cfg net c c')
    (hc : MapTracked cfg c) : MapTracked cfg c' := by
  refine Pool.tracked_steps (fun _ _ _ _ _ _ _ hinv hmay hact => placed_act hinv hmay hact) (fun _ _ _ hinv => hinv)
    (fun s l _ _ hpool hstart => ?_) (fun _ _ _ _ hinv henv => ?_) h hc
  · obtain ⟨_, hinv⟩ := hpool.inv
    exact hpool.join (started_places hstart hinv.sent) fun _ hinv => hinv
  · obtain ⟨view, rfl⟩ := henv
    exact ⟨hinv.stored, hinv.sent⟩

theorem placed_of_reachable (h : Reachable cfg net s) : Placed cfg s := by
  obtain ⟨view, l, hsteps⟩ := h
  obtain ⟨_, hplaced⟩ := (tracked_of_steps hsteps
    (Pool.tracked_nil ⟨fun _ _ _ _ h => (by cases h), fun _ hx => absurd hx List.not_mem_nil⟩)).inv
  exact hplaced

end DistributedMap
