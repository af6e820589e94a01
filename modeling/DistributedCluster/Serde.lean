import DistributedCluster.Ingestion.Types
import DistributedCluster.Search.Types
/-!
# The types that travel as JSON

What `serde_json` makes of what the three maps hold, and of the payload of an index
task.
-/

class Serde where
  raw_document : Json RawDocument
  book_metadata : Json BookMetadata
  book_ids : Json (List String)
  index_task_payload : JsonPayload IndexTaskPayload

instance [serde : Serde] : Json RawDocument := serde.raw_document
instance [serde : Serde] : Json BookMetadata := serde.book_metadata
instance [serde : Serde] : Json (List String) := serde.book_ids
instance [serde : Serde] : JsonPayload IndexTaskPayload := serde.index_task_payload

namespace CompactJson

scoped instance : Serde := ⟨inferInstance, inferInstance, inferInstance, inferInstance⟩

end CompactJson
