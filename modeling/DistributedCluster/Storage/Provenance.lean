import DistributedCluster.Storage.Placement
import DistributedCluster.Storage.Read
/-!
# Nothing out of thin air

Values are copied, forwarded, printed, parsed and resynced, by requests that may
arrive late or twice, and read while all this goes on. Whatever is true of the
pairs that clients put is true of what is stored, of what is under way and of
what is read.
-/

namespace DistributedMap

open Async

variable {K V : Type} [Key K] [Json V]

/-! ## What a program may do -/

/-- The pair that a write request carries has `P`, if it can be parsed. -/
def VouchedText (P : K → V → Prop) (key_str value_json : String) : Prop :=
  ∀ key value, parse_write key_str value_json = .ok (key, value) → P key value

def Request.Vouched (P : K → V → Prop) : Request → Prop
  | .replicate req => VouchedText P req.key req.value_json
  | .forward_put req => VouchedText P req.key req.value_json
  | .get_internal _ | .partition_dump _ => True

/-- What is written has `P`, and what is read has `R`. -/
def vouching (P R : K → V → Prop) : Discipline (MapI K V) Unit where
  may _
    | .store_local _ _ key value => P key value
    | .send _ _ req _ => Request.Vouched P req
    | _ => True
  gives _
    | .lookup _ _ key, found => ∀ value, found = some value → R key value
    | .dump_partition _ _, entries => ∀ e ∈ entries, R e.1 e.2
    | _, _ => True
  next _ _ _ := ()

/-- Where a node looks that is asked for `key`: the router may make another key of it. -/
def AskedFor (cfg : MapConfig) (key k : K) : Prop :=
  k = key ∨ ∃ key_str, cfg.route (Key.to_string key) = .ok key_str ∧ Key.from_str key_str = .ok k

/-- What a reader makes of the response has `P`, under a key that `asked` allows. -/
def GetResponse.Vouched (P : K → V → Prop) (asked : K → Prop) (response : GetResponse) : Prop :=
  ∀ value, read_response response = .ok (some value) → ∃ k, asked k ∧ P k value

section Programs

variable {P R : K → V → Prop} {cfg : MapConfig} {n m : NodeId} {p : Nat} {key : K} {value : V} {op_id : String}

/-- The program stores and sends pairs with `P` only, as long as it finds those with `R`. -/
abbrev Vouches {α : Type} (P R : K → V → Prop) (p : MapM K V α) (Q : α → Prop) : Prop :=
  Obeys (vouching P R) p () fun a _ => Q a

theorem vouches_act (e : MapAct K V) (h : (vouching P R).may () e) : Vouches P R (act e) fun _ => True :=
  Obeys.perform h fun _ _ => trivial

theorem vouching_membership (n : NodeId) : (vouching P R).Free (fun _ => True) (.membership n) :=
  fun _ _ => ⟨trivial, fun _ _ => trivial⟩

theorem vouching_send (n : NodeId) (addr : SocketAddr) {req : Request} (i : Nat) (h : Request.Vouched P req) :
    (vouching P R).Free (fun _ => True) (.send n addr req i) :=
  fun _ _ => ⟨h, fun _ _ => trivial⟩

/-- What is printed is parsed as it was. -/
theorem vouched_text (h : P key value) {value_json : String} (hjson : Json.to_json value = .ok value_json) :
    VouchedText P (Key.to_string key) value_json := by
  intro key' value' hparse
  rw [parse_write_ok hjson] at hparse
  cases hparse
  exact h

theorem get_owners_vouches (n : NodeId) (p : Nat) : Vouches P R (get_owners cfg n p) fun _ => True :=
  obeys_get_owners (vouching_membership n) trivial

theorem get_member_vouches (n m : NodeId) : Vouches P R (get_member n m) fun _ => True :=
  obeys_get_member (vouching_membership n) trivial

theorem request_vouches {ρ : Type} {addr : SocketAddr} {req : Request} {serve : NodeId → MapM K V ρ} {Q : ρ → Prop}
    (hreq : Request.Vouched P req) (hserve : ∀ m, Vouches P R (serve m) Q) (attempts : Nat) :
    Vouches P R (request n addr req serve attempts) fun r => ∀ x, r = .ok x → Q x := by
  refine (Obeys.retry (P := fun _ => True) (Q := fun r _ => Q r) (fun i g _ => ?_) (fun m g _ => ?_) trivial attempts).mono
    fun _ _ h => h.2
  · exact (vouching_send n addr i hreq).obeys trivial
  · exact (hserve m).mono fun _ _ h => ⟨trivial, h⟩

theorem should_process_vouches : Vouches P R (should_process n op_id) fun _ => True := by
  refine (vouches_act (.contains_op n op_id) trivial).bind fun found _ _ => ?_
  cases found with
  | true => exact Obeys.pure trivial
  | false =>
    refine Obeys.bind (Q := fun _ _ => True) ?_ fun _ _ _ => ?_
    · refine (vouches_act (.count_ops n) trivial).bind fun count _ _ => ?_
      split
      · exact vouches_act (.clear_ops n) trivial
      · exact Obeys.pure trivial
    · exact (vouches_act (.insert_op n op_id) trivial).bind fun _ _ _ => Obeys.pure trivial

/-! ## Writes -/

theorem store_local_vouches (h : P key value) : Vouches P R (store_local n p key value) fun _ => True :=
  vouches_act (.store_local n p key value) h

theorem store_replica_vouches (h : P key value) : Vouches P R (store_replica n p op_id key value) fun _ => True := by
  refine should_process_vouches.bind fun b _ _ => ?_
  cases b with
  | false => exact Obeys.pure trivial
  | true => exact (store_local_vouches h).bind fun _ _ _ => Obeys.pure trivial

theorem handle_write_vouches {key_str value_json : String} {write : K → V → MapM K V (Result Unit)}
    (htext : VouchedText P key_str value_json) (h : ∀ key value, P key value → Vouches P R (write key value) fun _ => True) :
    Vouches P R (handle_write key_str value_json write) fun _ => True := by
  unfold handle_write
  split
  · exact Obeys.pure trivial
  · rename_i key value hparse
    refine (h key value (htext key value hparse)).bind fun r _ _ => ?_
    cases r <;> exact Obeys.pure trivial

theorem replicate_all_vouches (h : P key value) (backups : List NodeId) :
    Vouches P R (replicate_all n p op_id key value backups) fun _ => True :=
  obeys_replicate_written (P := fun _ => True) (vouching_membership n)
    (fun addr _ i hjson => vouching_send n addr i (vouched_text h hjson)) (fun _ _ _ => store_replica_vouches h) trivial

theorem store_as_primary_vouches (h : P key value) :
    Vouches P R (store_as_primary cfg n p op_id key value) fun _ => True := by
  refine should_process_vouches.bind fun b _ _ => ?_
  cases b with
  | false => exact Obeys.pure trivial
  | true =>
    refine (store_local_vouches h).bind fun _ _ _ => ?_
    exact (get_owners_vouches n p).bind fun owners _ _ => replicate_all_vouches h owners.tail

theorem forward_put_vouches (h : P key value) : Vouches P R (forward_put cfg n m p op_id key value) fun _ => True :=
  obeys_post_written (P := fun _ => True) (vouching_membership n)
    (fun addr _ i hjson => vouching_send n addr i (vouched_text h hjson))
    (fun _ _ _ hjson _ => obeys_handle_write hjson (store_as_primary_vouches h)) trivial

theorem put_with_op_vouches (h : P key value) : Vouches P R (put_with_op cfg n key value op_id) fun _ => True := by
  refine should_process_vouches.bind fun b _ _ => ?_
  cases b with
  | false => exact Obeys.pure trivial
  | true =>
    refine (get_owners_vouches n _).bind fun owners _ _ => ?_
    cases owners with
    | nil => exact (store_local_vouches h).bind fun _ _ _ => Obeys.pure trivial
    | cons primary backups =>
      dsimp only
      split
      · exact forward_put_vouches h
      · exact (store_local_vouches h).bind fun _ _ _ => replicate_all_vouches h backups

theorem put_vouches (h : P key value) : Vouches P R (put cfg n key value) fun _ => True :=
  (vouches_act (.new_uuid n) trivial).bind fun _ _ _ => put_with_op_vouches h

theorem put_local_vouches (h : P key value) : Vouches P R (put_local cfg n key value) fun _ => True := by
  refine (store_local_vouches h).bind fun _ _ _ => ?_
  refine (get_owners_vouches n _).bind fun owners _ _ => ?_
  split
  · exact (vouches_act (.new_uuid n) trivial).bind fun _ _ _ => replicate_all_vouches h owners.tail
  · exact Obeys.pure trivial

/-! ## Reads -/

theorem lookup_vouches (n : NodeId) (p : Nat) (key : K) :
    Vouches P R (lookup n p key) fun found => ∀ value, found = some value → R key value :=
  Obeys.perform trivial fun _ h => h

omit [Key K] in
/-- A response with a value reads as this value, the others as none. -/
theorem value_response_vouched {asked : K → Prop} {found : Option V}
    (h : ∀ value, found = some value → ∃ k, asked k ∧ R k value) : (value_response found).Vouched R asked := by
  cases found with
  | none =>
    intro value hread
    cases hread
  | some value =>
    obtain ⟨text, hto, hfrom⟩ := Json.round_trip value
    intro value' hread
    simp only [value_response, hto, read_response, hfrom] at hread
    cases hread
    exact h value rfl

omit [Key K] in
/-- Without a value there is nothing to read. -/
theorem no_value_vouched {asked : K → Prop} (status : StatusCode) : GetResponse.Vouched R asked ⟨status, none⟩ := by
  intro value hread
  simp only [read_response] at hread
  split at hread
  · cases hread
  · split at hread <;> cases hread

theorem handle_get_internal_vouches (key_str : String) :
    Vouches P R (handle_get_internal cfg m key_str) fun r => r.Vouched R fun k => Key.from_str key_str = .ok k := by
  unfold handle_get_internal
  split
  · exact Obeys.pure (no_value_vouched .BAD_REQUEST)
  · rename_i k hk
    refine (lookup_vouches m _ k).bind fun found _ h => Obeys.pure (value_response_vouched fun value hfound => ?_)
    exact ⟨k, hk, h value hfound⟩

theorem route_get_internal_vouches (path : String) :
    Vouches P R (route_get_internal cfg m path) fun r =>
      r.Vouched R fun k => ∃ key_str, cfg.route path = .ok key_str ∧ Key.from_str key_str = .ok k := by
  unfold route_get_internal
  split
  · rename_i key_str hroute
    refine (handle_get_internal_vouches key_str).mono fun r _ h value hread => ?_
    obtain ⟨k, hk, hR⟩ := h value hread
    exact ⟨k, ⟨key_str, hroute, hk⟩, hR⟩
  · exact Obeys.pure (no_value_vouched _)

theorem fetch_remote_vouches : Vouches P R (fetch_remote cfg n m key) fun r =>
    ∀ value, r = .ok (some value) → ∃ k, AskedFor cfg key k ∧ R k value := by
  refine (get_member_vouches n m).bind fun node _ _ => ?_
  cases node with
  | none => exact Obeys.pure fun _ h => by cases h
  | some node =>
    have hreq : Request.Vouched P (.get_internal (Key.to_string key)) := trivial
    refine (request_vouches hreq (fun _ => route_get_internal_vouches (Key.to_string key)) 3).bind
      fun r _ hr => ?_
    cases r with
    | error e => exact Obeys.pure fun _ h => by cases h
    | ok response =>
      refine Obeys.pure fun value hread => ?_
      obtain ⟨k, hk, hR⟩ := hr response rfl value hread
      exact ⟨k, .inr hk, hR⟩

theorem fetch_first_vouches (owners : List NodeId) : Vouches P R (fetch_first cfg n key owners) fun found =>
    ∀ value, found = some value → ∃ k, AskedFor cfg key k ∧ R k value := by
  induction owners with
  | nil => exact Obeys.pure fun _ h => by cases h
  | cons owner owners ih =>
    refine fetch_remote_vouches.bind fun r _ hr => ?_
    split
    · rename_i value
      refine Obeys.pure fun value' h => ?_
      cases h
      exact hr value rfl
    · exact ih

theorem get_vouches : Vouches P R (get cfg n key) fun found =>
    ∀ value, found = some value → ∃ k, AskedFor cfg key k ∧ R k value := by
  refine (lookup_vouches n _ key).bind fun found _ h => ?_
  cases found with
  | some value =>
    refine Obeys.pure fun value' heq => ?_
    cases heq
    exact ⟨key, .inl rfl, h value rfl⟩
  | none =>
    refine (get_owners_vouches n _).bind fun owners _ _ => ?_
    cases owners with
    | nil => exact Obeys.pure fun _ h => by cases h
    | cons primary backups =>
      dsimp only
      split <;> exact fetch_first_vouches _

/-- The keys under which a client's request for `key_str` may look. -/
def RequestedFor (cfg : MapConfig) (key_str : String) (k : K) : Prop :=
  ∃ key, Key.from_str key_str = .ok key ∧ AskedFor cfg key k

theorem handle_get_vouches (key_str : String) :
    Vouches P R (handle_get cfg m key_str) fun r => r.Vouched R (RequestedFor cfg key_str) := by
  unfold handle_get
  split
  · exact Obeys.pure (no_value_vouched .BAD_REQUEST)
  · rename_i key hkey
    refine get_vouches.bind fun found _ h => Obeys.pure (value_response_vouched fun value hfound => ?_)
    obtain ⟨k, hk, hR⟩ := h value hfound
    exact ⟨k, ⟨key, hkey, hk⟩, hR⟩

/-! ## Resyncs -/

theorem apply_partition_entries_vouches {entries : List (K × V)} (h : ∀ e ∈ entries, P e.1 e.2) :
    Vouches P R (apply_partition_entries n p entries) fun _ => True := by
  induction entries with
  | nil => exact Obeys.pure trivial
  | cons e entries ih =>
    refine (store_local_vouches (h e List.mem_cons_self)).bind fun _ _ _ => ?_
    exact ih fun e' he' => h e' (List.mem_cons_of_mem _ he')

theorem handle_partition_dump_vouches : Vouches P R (handle_partition_dump m p) fun dump =>
    ∃ entries : List (K × V), (∀ e ∈ entries, R e.1 e.2) ∧ dump.entries = entries.filterMap entry_json :=
  Obeys.bind (Q := fun (entries : List (K × V)) _ => ∀ e ∈ entries, R e.1 e.2) (Obeys.perform trivial fun _ h => h)
    fun entries _ h => Obeys.pure ⟨entries, h, rfl⟩

theorem fetch_partition_vouches : Vouches P R (fetch_partition n m p) fun r =>
    ∀ entries, r = .ok entries → ∀ e ∈ entries, R e.1 e.2 := by
  refine (get_member_vouches n m).bind fun node _ _ => ?_
  cases node with
  | none => exact Obeys.pure fun _ h => by cases h
  | some node =>
    have hreq : Request.Vouched P (.partition_dump p) := trivial
    refine (request_vouches hreq (fun _ => handle_partition_dump_vouches) 3).bind fun r _ hr => ?_
    cases r with
    | error e => exact Obeys.pure fun _ h => by cases h
    | ok dump =>
      obtain ⟨entries, hvouched, hdump⟩ := hr dump rfl
      refine Obeys.pure fun parsed h => ?_
      rw [hdump, parse_entries] at h
      cases h
      exact hvouched

theorem resync_vouches (hR : ∀ k v, R k v → P k v) : Vouches P R (resync n m p) fun _ => True := by
  refine fetch_partition_vouches.bind fun r _ hr => ?_
  cases r with
  | error e => exact Obeys.pure trivial
  | ok entries =>
    dsimp only
    split
    · exact Obeys.pure trivial
    · exact apply_partition_entries_vouches fun e he => hR e.1 e.2 (hr entries rfl e he)

theorem sync_partition_vouches (hR : ∀ k v, R k v → P k v) : Vouches P R (sync_partition cfg n p) fun _ => True := by
  refine (get_owners_vouches n p).bind fun owners _ _ => ?_
  cases owners with
  | nil => exact Obeys.pure trivial
  | cons primary backups =>
    dsimp only
    split
    · refine (vouches_act (.has_partition n p) trivial).bind fun found _ _ => ?_
      cases found with
      | true => exact Obeys.pure trivial
      | false =>
        cases backups with
        | nil => exact Obeys.pure trivial
        | cons source_owner _ => exact resync_vouches hR
    · exact resync_vouches hR

theorem sync_each_vouches (hR : ∀ k v, R k v → P k v) (partitions : List Nat) :
    Vouches P R (sync_each cfg n partitions) fun _ => True := by
  induction partitions with
  | nil => exact Obeys.pure trivial
  | cons p partitions ih => exact (sync_partition_vouches hR).bind fun _ _ _ => ih

theorem partitions_where_vouches (mine : List NodeId → Bool) : Vouches P R (partitions_where cfg n mine) fun _ => True :=
  Obeys.filterM (P := fun _ => True) (fun p _ _ => (get_owners_vouches n p).bind fun _ _ _ => Obeys.pure trivial) trivial _

theorem target_partitions_vouches : Vouches P R (target_partitions cfg n) fun _ => True :=
  (partitions_where_vouches _).bind fun _ _ _ => (partitions_where_vouches _).bind fun _ _ _ =>
    vouches_act (.iterate n _) trivial

theorem sync_partitions_vouches (hR : ∀ k v, R k v → P k v) : Vouches P R (sync_partitions cfg n) fun _ => True :=
  target_partitions_vouches.bind fun partitions _ _ => (sync_each_vouches hR partitions).bind fun _ _ _ => Obeys.pure trivial

/-! ## Every program -/

theorem unattended_vouches {α : Type} {p : MapM K V α} {Q : α → Prop} (h : Vouches P R p Q) :
    Vouches P R (unattended p) fun _ => True :=
  h.bind fun _ _ _ => Obeys.pure trivial

theorem serve_vouches (m : NodeId) {req : Request} (h : Request.Vouched P req) :
    Vouches P R (serve (K := K) (V := V) cfg m req) fun _ => True := by
  cases req with
  | replicate req => exact unattended_vouches (handle_write_vouches h fun _ _ => store_replica_vouches)
  | forward_put req => exact unattended_vouches (handle_write_vouches h fun _ _ => store_as_primary_vouches)
  | get_internal path => exact unattended_vouches (route_get_internal_vouches path)
  | partition_dump p => exact unattended_vouches handle_partition_dump_vouches

/-- The pairs that clients put have `P`. -/
def Job.Vouched (P : K → V → Prop) : Job K V → Prop
  | .put _ key value => P key value
  | .put_local _ key value => P key value
  | .put_request _ req => VouchedText P req.key req.value_json
  | _ => True

theorem Job.Vouched.mono {P' : K → V → Prop} (hP : ∀ k v, P k v → P' k v) {job : Job K V} (h : job.Vouched P) :
    job.Vouched P' := by
  cases job with
  | put n key value => exact hP _ _ h
  | put_local n key value => exact hP _ _ h
  | put_request n req => exact fun key value hparse => hP _ _ (h key value hparse)
  | _ => trivial

/-- The pairs that a client puts. -/
def Job.Puts : Job K V → K → V → Prop
  | .put _ key value, k, v => k = key ∧ v = value
  | .put_local _ key value, k, v => k = key ∧ v = value
  | .put_request _ req, k, v => parse_write req.key req.value_json = .ok (k, v)
  | _, _, _ => False

theorem Job.vouched_puts (job : Job K V) : job.Vouched job.Puts := by
  cases job with
  | put n key value => exact ⟨rfl, rfl⟩
  | put_local n key value => exact ⟨rfl, rfl⟩
  | put_request n req => exact fun key value hparse => hparse
  | _ => trivial

theorem started_vouches [DecidableEq K] {s : MapCluster K V} {job : Job K V} {p : MapM K V Unit} (h : Started cfg s job p)
    (hR : ∀ k v, R k v → P k v) (hjob : job.Vouched P) (hsent : ∀ x ∈ s.sent, Request.Vouched P x.2.2) :
    Vouches P R p fun _ => True := by
  cases h with
  | put n key value => exact unattended_vouches (put_vouches hjob)
  | put_local n key value => exact unattended_vouches (put_local_vouches hjob)
  | get n key => exact unattended_vouches get_vouches
  | put_request n req => exact unattended_vouches (handle_write_vouches hjob fun _ _ => put_with_op_vouches)
  | get_request n key_str => exact unattended_vouches (handle_get_vouches key_str)
  | resync n => exact unattended_vouches (sync_partitions_vouches hR)
  | arrival hmem _ => exact serve_vouches _ (hsent _ hmem)

end Programs

/-! ## Every run -/

/-- What is stored and what may still arrive has `P`. -/
structure VouchedFor [DecidableEq K] (P : K → V → Prop) (s : MapCluster K V) : Prop where
  stored : ∀ n p key value, s.stored n p key = some value → P key value
  sent : ∀ x ∈ s.sent, Request.Vouched P x.2.2

variable [DecidableEq K] {P R : K → V → Prop} {cfg : MapConfig} {net : Network} {s s' : MapCluster K V}

theorem vouched_empty (view : NodeId → MembershipService) : VouchedFor P (.empty view) :=
  ⟨fun _ _ _ _ h => (by cases h), fun _ hx => absurd hx List.not_mem_nil⟩

theorem vouched_act (h : VouchedFor P s) (hread : ∀ n p key value, s.stored n p key = some value → R key value)
    {e : MapAct K V} {x : (MapI K V).Ans e} (hmay : (vouching P R).may () e) (hact : MapSem cfg net e s x s') :
    (vouching P R).gives () e x ∧ VouchedFor P s' := by
  cases e with
  | store_local n p key value =>
    obtain rfl : s' = s.store_local n p key value := hact
    refine ⟨trivial, fun m q k v hstored => ?_, h.sent⟩
    rw [s.stored_store_local] at hstored
    split at hstored
    · rename_i hsame
      obtain ⟨-, -, rfl⟩ := hsame
      cases hstored
      exact hmay
    · exact h.stored m q k v hstored
  | clear_ops n =>
    obtain rfl : s' = s.clear_ops n := hact
    exact ⟨trivial, fun m q k v hstored => h.stored m q k v (s.stored_clear_ops n m q k ▸ hstored), h.sent⟩
  | insert_op n op_id =>
    obtain rfl : s' = s.insert_op n op_id := hact
    exact ⟨trivial, fun m q k v hstored => h.stored m q k v (s.stored_insert_op n m op_id q k ▸ hstored), h.sent⟩
  | new_uuid n =>
    obtain ⟨-, rfl⟩ := hact
    exact ⟨trivial, h.stored, h.sent⟩
  | send n addr req i =>
    obtain ⟨-, rfl⟩ := hact
    refine ⟨trivial, h.stored, fun y hy => ?_⟩
    rcases List.mem_cons.1 hy with rfl | hy
    · exact hmay
    · exact h.sent y hy
  | lookup n p key =>
    obtain ⟨rfl, rfl⟩ := hact
    exact ⟨fun value hfound => hread n p key value hfound, h⟩
  | dump_partition n p =>
    obtain ⟨rfl, rfl⟩ := hact
    exact ⟨fun e he => hread n p e.1 e.2 (MapCluster.mem_dump_partition.1 he), h⟩
  | _ =>
    obtain ⟨-, rfl⟩ := hact
    exact ⟨trivial, h⟩

/-- What a client hears. -/
inductive Answer (V : Type)
  | none
  | value (found : Option V)
  | response (response : GetResponse)

/-- Readers wait for their answers; what else may start is as ever, but clients put
pairs with `P` only. -/
inductive Asked (P : K → V → Prop) (cfg : MapConfig) (s : MapCluster K V) : Job K V → MapM K V (Answer V) → Prop
  | get (n : NodeId) (key : K) : Asked P cfg s (.get n key) (do pure (.value (← get cfg n key)))
  | get_request (n : NodeId) (key_str : String) :
    Asked P cfg s (.get_request n key_str) (do pure (.response (← handle_get (K := K) (V := V) cfg n key_str)))
  | unheard {job p} : Started cfg s job p → job.Vouched P → Asked P cfg s job (do p; pure .none)

/-- Runs of everything that uses the map, while nodes come and go. -/
abbrev VouchedSteps (P : K → V → Prop) (cfg : MapConfig) (net : Network) :
    MapCluster K V × Pool (Job K V) (MapI K V) (Answer V) → MapCluster K V × Pool (Job K V) (MapI K V) (Answer V) → Prop :=
  Pool.Steps (fun _ => MapSem cfg net) (fun s _ => Asked P cfg s) fun s _ s' => ∃ view, s' = { s with view }

/-- The value that was read has `P`. -/
def Answer.Vouched (P : K → V → Prop) (cfg : MapConfig) : Job K V → Answer V → Prop
  | .get _ key, .value found => ∀ value, found = some value → ∃ k, AskedFor cfg key k ∧ P k value
  | .get_request _ key_str, .response r => r.Vouched P (RequestedFor cfg key_str)
  | _, _ => True

theorem asked_vouches {job : Job K V} {p : MapM K V (Answer V)} (h : Asked P cfg s job p) (hs : VouchedFor P s) :
    Vouches P P p fun answer => answer.Vouched P cfg job := by
  cases h with
  | get n key => exact get_vouches.bind fun found _ hfound => Obeys.pure hfound
  | get_request n key_str => exact (handle_get_vouches key_str).bind fun response _ hresponse => Obeys.pure hresponse
  | unheard hstart hjob =>
    refine (started_vouches hstart (fun _ _ h => h) hjob hs.sent).bind fun _ _ _ => Obeys.pure ?_
    cases job <;> trivial

/-- If what clients put has `P`, then so has what any node stores, what may still
arrive anywhere and what anybody reads. -/
theorem nothing_from_thin_air {view : NodeId → MembershipService} {l : Pool (Job K V) (MapI K V) (Answer V)}
    (h : VouchedSteps P cfg net (.empty view, []) (s, l)) :
    (∀ n p key value, s.stored n p key = some value → P key value) ∧ (∀ x ∈ s.sent, Request.Vouched P x.2.2) ∧
      ∀ job answer, (job, .done answer) ∈ l → Answer.Vouched P cfg job answer := by
  have htracked : Pool.Tracked (fun _ => vouching P P) (fun s _ => VouchedFor P s)
      (fun job answer _ => Answer.Vouched P cfg job answer) (s, l) := by
    refine Pool.tracked_steps (fun _ _ _ _ _ _ _ hinv hmay hact => vouched_act hinv hinv.stored hmay hact) (fun _ _ _ hinv => hinv)
      (fun s l _ _ hpool hstart => ?_) (fun _ _ _ _ hinv henv => ?_) h (Pool.tracked_nil (vouched_empty view))
    · obtain ⟨_, hinv⟩ := hpool.inv
      exact hpool.join (asked_vouches hstart hinv) fun _ hinv => hinv
    · obtain ⟨view, rfl⟩ := henv
      exact ⟨hinv.stored, hinv.sent⟩
  obtain ⟨_, hvouched⟩ := htracked.inv
  obtain ⟨tracked, rfl, hobeys, -⟩ := htracked
  refine ⟨hvouched.stored, hvouched.sent, fun job answer hmem => ?_⟩
  obtain ⟨⟨⟨job', p⟩, g⟩, hmem, heq⟩ := List.mem_map.1 hmem
  cases heq
  exact hobeys _ hmem

section Example

open CompactJson

def put_pair (key : String) (value : Bool) : Prop := key = "k" ∧ value = true

/-- Node b puts; its key lies on the two others. -/
def after_put : MapCluster String Bool :=
  (exec (MapInt (answered trio_cfg)) (unattended (put trio_cfg node_b "k" true)) (.empty (demo_view trio))).2

/-- Node b reads. -/
def read_at_b : Option Bool × MapCluster String Bool := exec (MapInt (answered trio_cfg)) (get trio_cfg node_b "k") after_put

/-- One process starts and runs to its end while the others wait. -/
theorem asked_alone {c : MapCluster String Bool × Pool (Job String Bool) (MapI String Bool) (Answer Bool)}
    {l : Pool (Job String Bool) (MapI String Bool) (Answer Bool)} {job : Job String Bool} {p : MapM String Bool (Answer Bool)}
    {s : MapCluster String Bool} (h : VouchedSteps put_pair trio_cfg .reliable c (s, l))
    (hstart : Asked put_pair trio_cfg s job p) :
    VouchedSteps put_pair trio_cfg .reliable c
      ((exec (MapInt (answered trio_cfg)) p s).2, (job, .done (exec (MapInt (answered trio_cfg)) p s).1) :: l) := by
  have hrun : VouchedSteps put_pair trio_cfg .reliable (s, (job, p) :: l)
      ((exec (MapInt (answered trio_cfg)) p s).2, (job, .done (exec (MapInt (answered trio_cfg)) p s).1) :: l) :=
    Pool.steps_of_runs (S := fun _ : Job String Bool => MapSem trio_cfg .reliable)
      (exec_runs (MapInt_sem (allows_answered .reliable)) p s) [] l
  exact (h.tail (.spawn job p hstart)).trans hrun

theorem nothing_from_thin_air_read : read_at_b.1 = some true ∧ ∃ k, AskedFor trio_cfg "k" k ∧ put_pair k true := by
  have hread : read_at_b.1 = some true := by decide +kernel
  have hput := asked_alone (.refl (a := (.empty (demo_view trio), []))) (.unheard (.put node_b "k" true) ⟨rfl, rfl⟩)
  rw [exec_bind] at hput
  have hget := asked_alone hput (.get node_b "k")
  rw [exec_bind] at hget
  have hanswer := (nothing_from_thin_air hget).2.2 _ _ List.mem_cons_self
  exact ⟨hread, hanswer true hread⟩

end Example

end DistributedMap
