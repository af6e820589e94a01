import Mathlib.Data.String.Basic
/-!
# Storage protocol

`storage/protocol.rs`: the bodies of the internal requests and their answers.
Keys travel as text and values as JSON text inside the body. What `serde_json` makes
of a type is a parameter.
-/

/-- `K: ToString + FromStr`, parsing what it prints. -/
class Key (K : Type) where
  to_string : K → String
  from_str : String → Except String K
  from_str_to_string : ∀ k, from_str (to_string k) = .ok k

/-- `V: Serialize + DeserializeOwned` with `serde_json`, reading back what it writes. -/
class Json (V : Type) where
  to_json : V → Except String String
  from_json : String → Except String V
  round_trip : ∀ v, ∃ text, to_json v = .ok text ∧ from_json text = .ok v

instance : Key String where
  to_string k := k
  from_str text := .ok text
  from_str_to_string _ := rfl

/-- `serde_json::Number`; a float by its bits. -/
inductive JsonNumber
  | PosInt (n : UInt64)
  | NegInt (n : Int64)
  | Float (bits : UInt64)
  deriving DecidableEq, Repr

/-- `serde_json::Value` -/
inductive JsonValue
  | Null
  | Bool (b : Bool)
  | Number (n : JsonNumber)
  | String (s : String)
  | Array (items : List JsonValue)
  | Object (fields : List (String × JsonValue))

/-- `to_value` and `from_value` of a type, reading back what they make. -/
class JsonPayload (V : Type) where
  to_value : V → JsonValue
  from_value : JsonValue → Except String V
  from_value_to_value : ∀ v, from_value (to_value v) = .ok v

structure ReplicateRequest where
  partition : Nat
  op_id : String
  key : String
  value_json : String
  deriving DecidableEq, Repr

structure ForwardPutRequest where
  partition : Nat
  op_id : String
  key : String
  value_json : String
  deriving DecidableEq, Repr

structure PutRequest where
  op_id : String
  key : String
  value_json : String
  deriving DecidableEq, Repr

structure KeyValueJson where
  key : String
  value_json : String
  deriving DecidableEq, Repr

structure PartitionDumpResponse where
  partition : Nat
  entries : List KeyValueJson
  deriving DecidableEq, Repr

/-- A request between nodes, by endpoint. -/
inductive Request
  /-- `/replicate` -/
  | replicate (req : ReplicateRequest)
  /-- `/forward_put` -/
  | forward_put (req : ForwardPutRequest)
  /-- `/internal/get/{key}`, with the key's text as it is spliced into the URL -/
  | get_internal (key : String)
  /-- `/internal/partition/{partition}` -/
  | partition_dump (partition : Nat)
  deriving DecidableEq, Repr
