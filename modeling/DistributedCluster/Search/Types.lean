import DistributedCluster.Storage.CompactJson
/-!
# Search data types

`BookMetadata` of `search/types.rs`.
-/

structure BookMetadata where
  book_id : String
  title : String
  author : String
  language : String
  year : Option UInt32
  word_count : UInt64
  unique_words : UInt64
  deriving DecidableEq

namespace CompactJson

def year_text : Option UInt32 → JsonText
  | some year => .number year.toNat
  | none => .null

def as_year : JsonText → Option (Option UInt32)
  | .null => some none
  | v => v.as_u32.map some

theorem as_year_text (year : Option UInt32) : as_year (year_text year) = some year := by
  cases year with
  | none => rfl
  | some year => simp only [year_text, as_year, JsonText.as_u32_number, Option.map_some]

def metadata_text (m : BookMetadata) : JsonText :=
  .object [("book_id", .string m.book_id), ("title", .string m.title), ("author", .string m.author),
    ("language", .string m.language), ("year", year_text m.year), ("word_count", .number m.word_count.toNat),
    ("unique_words", .number m.unique_words.toNat)]

def as_metadata (v : JsonText) : Option BookMetadata := do
  match ← v.fields_of ["book_id", "title", "author", "language", "year", "word_count", "unique_words"] with
  | [book_id, title, author, language, year, word_count, unique_words] =>
    pure ⟨← book_id.as_string, ← title.as_string, ← author.as_string, ← language.as_string, ← as_year year,
      ← word_count.as_u64, ← unique_words.as_u64⟩
  | _ => none

theorem as_metadata_text (m : BookMetadata) : as_metadata (metadata_text m) = some m := by
  have hfields : (metadata_text m).fields_of ["book_id", "title", "author", "language", "year", "word_count",
      "unique_words"] = some [.string m.book_id, .string m.title, .string m.author, .string m.language, year_text m.year,
        .number m.word_count.toNat, .number m.unique_words.toNat] := rfl
  rw [as_metadata, hfields]
  simp [as_year_text]

scoped instance : Json BookMetadata := json_of metadata_text as_metadata as_metadata_text

end CompactJson
