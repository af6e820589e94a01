import DistributedCluster.Storage.CompactJson
/-!
# Ingestion data types

`ingestion/types.rs`.
-/

structure RawDocument where
  book_id : String
  header : String
  body : String
  source_url : String
  deriving DecidableEq

structure IngestResponse where
  book_id : String
  status : String
  source_url : String
  deriving DecidableEq

structure IngestStatusResponse where
  book_id : String
  status : String
  deriving DecidableEq

structure IndexTaskPayload where
  book_id : String
  deriving DecidableEq

namespace CompactJson

scoped instance : Json RawDocument :=
  json_of (fun d => .object [("book_id", .string d.book_id), ("header", .string d.header), ("body", .string d.body),
      ("source_url", .string d.source_url)])
    (fun v => do
      match ← v.fields_of ["book_id", "header", "body", "source_url"] with
      | [book_id, header, body, source_url] =>
        pure ⟨← book_id.as_string, ← header.as_string, ← body.as_string, ← source_url.as_string⟩
      | _ => none)
    fun _ => rfl

scoped instance : JsonPayload IndexTaskPayload where
  to_value payload := .Object [("book_id", .String payload.book_id)]
  from_value
    | .Object fields =>
      match fields.lookup "book_id" with
      | some (.String book_id) => .ok ⟨book_id⟩
      | _ => .error "missing field \x60book_id\x60"
    | _ => .error "missing field \x60book_id\x60"
  from_value_to_value _ := rfl

end CompactJson
