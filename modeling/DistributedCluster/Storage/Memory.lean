import DistributedCluster.Storage.Cluster
/-!
# The distributed map

`storage/memory.rs` and `storage/handlers.rs`. The first argument `n` of an
operation is the node it runs at (`self.membership.local_node.id`). Log lines
and the pauses between two attempts are left out.
-/

abbrev MapM (K V : Type) := Async (MapI K V)

namespace DistributedMap

open Async

variable {K V : Type}

def act (e : MapAct K V) : MapM K V ((MapI K V).Ans e) := perform (I := MapI K V) e

def contains_op (n : NodeId) (op_id : String) : MapM K V Bool := act (.contains_op n op_id)
def count_ops (n : NodeId) : MapM K V Nat := act (.count_ops n)
def clear_ops (n : NodeId) : MapM K V Unit := act (.clear_ops n)
def insert_op (n : NodeId) (op_id : String) : MapM K V Unit := act (.insert_op n op_id)
def store_local (n : NodeId) (partition : Nat) (key : K) (value : V) : MapM K V Unit :=
  act (.store_local n partition key value)
def lookup (n : NodeId) (partition : Nat) (key : K) : MapM K V (Option V) := act (.lookup n partition key)
def dump_partition (n : NodeId) (partition : Nat) : MapM K V (List (K × V)) :=
  act (.dump_partition n partition)
def has_partition (n : NodeId) (partition : Nat) : MapM K V Bool := act (.has_partition n partition)
def membership (n : NodeId) : MapM K V MembershipService := act (.membership n)
def new_uuid (n : NodeId) : MapM K V String := act (.new_uuid n)
def iterate (n : NodeId) (set : List Nat) : MapM K V (List Nat) := act (.iterate n set)
def send (n : NodeId) (addr : SocketAddr) (req : Request) (attempt : Nat) : MapM K V (Fate NodeId) :=
  act (.send n addr req attempt)

variable (cfg : MapConfig)

def get_owners (n : NodeId) (partition : Nat) : MapM K V (List NodeId) := do
  pure (cfg.partitioner.get_owners (← membership n) partition)

def get_member (n : NodeId) (node_id : NodeId) : MapM K V (Option Node) := do
  pure ((← membership n).get_member node_id)

/-- The history of operation ids is emptied when it has grown too long. -/
def trim_ops (n : NodeId) : MapM K V Unit := do
  let count ← count_ops n
  if count > 10000 then clear_ops n else pure ()

def should_process (n : NodeId) (op_id : String) : MapM K V Bool := do
  if ← contains_op n op_id then
    pure false
  else do
    trim_ops n
    insert_op n op_id
    pure true

/-- `post_with_retry` and `get_with_retry`. -/
def request {ρ : Type} (n : NodeId) (addr : SocketAddr) (req : Request) (serve : NodeId → MapM K V ρ)
    (attempts : Nat) : MapM K V (Result ρ) :=
  retry (send n addr req) serve attempts

variable [Key K] [Json V]

def apply_partition_entries (n : NodeId) (partition : Nat) : List (K × V) → MapM K V Unit
  | [] => pure ()
  | (key, value) :: entries => do
    store_local n partition key value
    apply_partition_entries n partition entries

def store_replica (n : NodeId) (partition : Nat) (op_id : String) (key : K) (value : V) :
    MapM K V (Result Unit) := do
  if ← should_process n op_id then
    store_local n partition key value
    pure (.ok ())
  else pure (.ok ())

def get_local (n : NodeId) (key : K) : MapM K V (Option V) :=
  lookup n (cfg.partitioner.get_partition (Key.to_string key)) key

/-! ## Handlers without further requests -/

/-- The key and the value of a write request. -/
def parse_write (key value_json : String) : Except String (K × V) := do
  pure (← Key.from_str key, ← Json.from_json value_json)

/-- What a write handler answers: parse errors are the client's, errors of the
write the server's. -/
def handle_write (key value_json : String) (write : K → V → MapM K V (Result Unit)) : MapM K V StatusCode :=
  match parse_write key value_json with
  | .error _ => pure .BAD_REQUEST
  | .ok (key, value) => do
    match ← write key value with
    | .ok _ => pure .OK
    | .error _ => pure .INTERNAL_SERVER_ERROR

def handle_replicate (m : NodeId) (req : ReplicateRequest) : MapM K V StatusCode :=
  handle_write (K := K) (V := V) req.key req.value_json (store_replica m req.partition req.op_id)

structure GetResponse where
  status : StatusCode
  value_json : Option String

def value_response : Option V → GetResponse
  | some value =>
    match Json.to_json value with
    | .ok value_json => ⟨.OK, some value_json⟩
    | .error _ => ⟨.INTERNAL_SERVER_ERROR, none⟩
  | none => ⟨.NOT_FOUND, none⟩

def handle_get_internal (m : NodeId) (key_str : String) : MapM K V GetResponse :=
  match (Key.from_str key_str : Except String K) with
  | .error _ => pure ⟨.BAD_REQUEST, none⟩
  | .ok k => do pure (value_response (← get_local cfg m k))

/-- `GET /internal/get/{key}`, unless the router answers itself. -/
def route_get_internal (m : NodeId) (path : String) : MapM K V GetResponse :=
  match cfg.route path with
  | .ok key_str => handle_get_internal cfg m key_str
  | .error status => pure ⟨status, none⟩

def entry_json (entry : K × V) : Option KeyValueJson :=
  match Json.to_json entry.2 with
  | .ok value_json => some ⟨Key.to_string entry.1, value_json⟩
  | .error _ => none

def handle_partition_dump (m : NodeId) (partition : Nat) : MapM K V PartitionDumpResponse := do
  let entries ← dump_partition m partition
  pure ⟨partition, entries.filterMap entry_json⟩

/-! ## Writes -/

/-- A request that carries a write to another node. -/
def post_write (n addr_of : NodeId) (not_found : String) (value : V) (make : String → Request)
    (serve : String → NodeId → MapM K V StatusCode) (failed : StatusCode → String) : MapM K V (Result Unit) := do
  match ← get_member n addr_of with
  | none => pure (.error (.anyhow not_found))
  | some node =>
    match Json.to_json value with
    | .error e => pure (.error (.anyhow e))
    | .ok value_json => do
      match ← request n node.http_addr (make value_json) (serve value_json) 3 with
      | .error e => pure (.error e)
      | .ok status => if status.is_success then pure (.ok ()) else pure (.error (.anyhow (failed status)))

def replicate_to_backup (n backup : NodeId) (partition : Nat) (op_id : String) (key : K) (value : V) :
    MapM K V (Result Unit) :=
  let req (value_json : String) : ReplicateRequest := ⟨partition, op_id, Key.to_string key, value_json⟩
  post_write n backup "Backup node not found" value (fun value_json => .replicate (req value_json))
    (fun value_json m => handle_replicate m (req value_json))
    (fun status => "Replication failed: " ++ status.display)

/-- `for backup in owners.iter().skip(1)`, ended by the first error. -/
def replicate_all (n : NodeId) (partition : Nat) (op_id : String) (key : K) (value : V) :
    List NodeId → MapM K V (Result Unit)
  | [] => pure (.ok ())
  | backup :: backups => do
    match ← replicate_to_backup n backup partition op_id key value with
    | .ok _ => replicate_all n partition op_id key value backups
    | .error e => pure (.error e)

def store_as_primary (n : NodeId) (partition : Nat) (op_id : String) (key : K) (value : V) :
    MapM K V (Result Unit) := do
  if ← should_process n op_id then
    store_local n partition key value
    let owners ← get_owners cfg n partition
    replicate_all n partition op_id key value owners.tail
  else pure (.ok ())

def handle_forward_put (m : NodeId) (req : ForwardPutRequest) : MapM K V StatusCode :=
  handle_write (K := K) (V := V) req.key req.value_json (store_as_primary cfg m req.partition req.op_id)

def forward_put (n primary : NodeId) (partition : Nat) (op_id : String) (key : K) (value : V) :
    MapM K V (Result Unit) :=
  let req (value_json : String) : ForwardPutRequest := ⟨partition, op_id, Key.to_string key, value_json⟩
  post_write n primary "Primary node not found" value (fun value_json => .forward_put (req value_json))
    (fun value_json m => handle_forward_put (K := K) (V := V) cfg m (req value_json))
    (fun status => "ForwardPut failed " ++ status.display)

def put_with_op (n : NodeId) (key : K) (value : V) (op_id : String) : MapM K V (Result Unit) := do
  if ← should_process n op_id then
    let partition := cfg.partitioner.get_partition (Key.to_string key)
    let owners ← get_owners cfg n partition
    match owners with
    | [] => do
      store_local n partition key value
      pure (.ok ())
    | primary :: backups =>
      if n ≠ primary then forward_put cfg n primary partition op_id key value
      else do
        store_local n partition key value
        replicate_all n partition op_id key value backups
  else pure (.ok ())

def put (n : NodeId) (key : K) (value : V) : MapM K V (Result Unit) := do
  let op_id ← new_uuid n
  put_with_op cfg n key value op_id

/-- The public `/put`. -/
def handle_put (m : NodeId) (req : PutRequest) : MapM K V StatusCode :=
  handle_write (K := K) (V := V) req.key req.value_json fun key value => put_with_op cfg m key value req.op_id

/-- Not called by `put_with_op`; it writes without recording the operation. -/
def put_local (n : NodeId) (key : K) (value : V) : MapM K V (Result Unit) := do
  let partition := cfg.partitioner.get_partition (Key.to_string key)
  store_local n partition key value
  let owners ← get_owners cfg n partition
  if owners.length > 1 then
    let op_id ← new_uuid n
    replicate_all n partition op_id key value owners.tail
  else pure (.ok ())

/-! ## Reads -/

/-- What the client makes of the answer to `/internal/get`. -/
def read_response (response : GetResponse) : Result (Option V) :=
  if response.status = .NOT_FOUND then .ok none
  else if response.status.is_success then
    match response.value_json with
    | none => .ok none
    | some json_str =>
      match Json.from_json json_str with
      | .ok value => .ok (some value)
      | .error e => .error (.anyhow e)
  else .error (.anyhow ("GET request failed " ++ response.status.display))

def fetch_remote (n owner_id : NodeId) (key : K) : MapM K V (Result (Option V)) := do
  match ← get_member n owner_id with
  | none => pure (.error (.anyhow ("Owner node not found: NodeId(\"" ++ owner_id.text ++ "\")")))
  | some node => do
    let path := Key.to_string key
    match ← request n node.http_addr (.get_internal path)
        (fun m => route_get_internal (K := K) (V := V) cfg m path) 3 with
    | .error e => pure (.error e)
    | .ok response => pure (read_response response)

/-- The first of some nodes that answers with a value. -/
def fetch_first (n : NodeId) (key : K) : List NodeId → MapM K V (Option V)
  | [] => pure none
  | owner :: owners => do
    match ← fetch_remote cfg n owner key with
    | .ok (some value) => pure (some value)
    | _ => fetch_first n key owners

def get (n : NodeId) (key : K) : MapM K V (Option V) := do
  let partition := cfg.partitioner.get_partition (Key.to_string key)
  match ← lookup n partition key with
  | some value => pure (some value)
  | none => do
    let owners ← get_owners cfg n partition
    match owners with
    | [] => pure none
    | primary_owner :: backups =>
      if primary_owner = n then fetch_first cfg n key backups
      else fetch_first cfg n key (primary_owner :: backups)

/-- The public `/get/{key}`. -/
def handle_get (m : NodeId) (key_str : String) : MapM K V GetResponse :=
  match (Key.from_str key_str : Except String K) with
  | .error _ => pure ⟨.BAD_REQUEST, none⟩
  | .ok key => do pure (value_response (← get cfg m key))

def parse_entry (entry : KeyValueJson) : Result (K × V) :=
  match parse_write entry.key entry.value_json with
  | .ok kv => .ok kv
  | .error e => .error (.anyhow e)

def fetch_partition (n owner_id : NodeId) (partition : Nat) : MapM K V (Result (List (K × V))) := do
  match ← get_member n owner_id with
  | none => pure (.error (.anyhow ("Owner node not found: NodeId(\"" ++ owner_id.text ++ "\")")))
  | some node =>
    match ← request n node.http_addr (.partition_dump partition)
        (fun m => handle_partition_dump (K := K) (V := V) m partition) 3 with
    | .error e => pure (.error e)
    | .ok dump => pure (dump.entries.mapM parse_entry)

end DistributedMap
