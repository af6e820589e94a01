import DistributedCluster.Lib.JsonText
import DistributedCluster.Storage.Protocol
/-!
# JSON of a few types

Instances for examples: the texts that `serde_json` writes, read back.
-/

namespace CompactJson

/-- Types that are written as a text of `JsonText`. -/
@[reducible] def json_of {V : Type} (write : V → JsonText) (read : JsonText → Option V) (h : ∀ v, read (write v) = some v) :
    Json V where
  to_json v := .ok (write v).to_text
  from_json text :=
    match (JsonText.from_text text).bind read with
    | some v => .ok v
    | none => .error "expected value at line 1 column 1"
  round_trip v := ⟨_, rfl, by simp only [JsonText.from_text_to_text, Option.bind_some, h]⟩

scoped instance : Json Bool :=
  json_of .bool
    (fun
      | .bool b => some b
      | _ => none)
    fun _ => rfl

theorem mapM_as_string (items : List String) : (items.map JsonText.string).mapM JsonText.as_string = some items := by
  induction items with
  | nil => rfl
  | cons item items ih =>
    rw [List.map_cons, List.mapM_cons, ih]
    rfl

scoped instance : Json (List String) :=
  json_of (fun items => .array (items.map .string))
    (fun
      | .array items => items.mapM JsonText.as_string
      | _ => none)
    mapM_as_string

end CompactJson
