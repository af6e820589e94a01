import DistributedCluster.Search.Tokenizer
import DistributedCluster.Search.Types
/-!
# Texts of Project Gutenberg

The parser of `ingestion/handlers.rs`. Positions count characters: the code's byte
offsets are those of the same characters and compare alike.
-/

namespace Ingestion

/-- What the parser asks about characters besides: `\d` of a regular expression. -/
structure TextRules extends Unicode where
  is_digit : Char → Bool

def TextRules.ascii : TextRules := { Unicode.ascii with is_digit := Char.isDigit }

def START_MARKER : List Char := "*** START OF THE PROJECT GUTENBERG EBOOK".toList
def END_MARKER : List Char := "*** END OF THE PROJECT GUTENBERG EBOOK".toList

/-- `str::find`: where the pattern occurs first. -/
def find (pattern : List Char) : List Char → Option Nat
  | [] => if pattern.isEmpty then some 0 else none
  | c :: text => if pattern.isPrefixOf (c :: text) then some 0 else (find pattern text).map (· + 1)

/-- `&text[start..stop]`, or nothing if that panics. -/
def slice (text : List Char) (start stop : Nat) : Option (List Char) :=
  if start ≤ stop ∧ stop ≤ text.length then some ((text.take stop).drop start) else none

variable (rules : TextRules)

/-- `str::trim` -/
def trim (text : List Char) : String := String.ofList (trim_matches rules.is_whitespace text)

/-- No answer at all is a panic. -/
def split_gutenberg_text (text : String) : Option (Option (String × String)) :=
  let text := text.toList
  match find START_MARKER text, find END_MARKER text with
  | some start_idx, some end_idx =>
    if start_idx ≥ end_idx then some none
    else do
      let header ← slice text 0 start_idx
      let body ← slice text (start_idx + START_MARKER.length) end_idx
      some (some (trim rules header, trim rules body))
  | _, _ => some none

/-- A line without its `\r\n`, of which the `\n` is gone already. -/
def strip_cr (line : List Char) : List Char := if line.getLast? = some '\r' then line.dropLast else line

/-- `str::lines`: what comes after the last `\n` is a line unless it is empty. -/
def lines (text : List Char) : List (List Char) :=
  let parts := text.splitOn '\n'
  parts.dropLast.map strip_cr ++ (parts.getLast?.toList.filter fun line => !line.isEmpty)

/-- The first line with the label decides, also if it has no value. -/
def extract_header_field (header label : String) : Option String :=
  ((lines header.toList).findSome? fun line =>
    if label.toList.isPrefixOf line then some (trim rules (line.drop label.length)) else none).filter fun value => value ≠ ""

/-- The first match of `(\d{4})`. -/
def find_year : List Char → Option (List Char)
  | [] => none
  | c :: text =>
    if 4 ≤ (c :: text).length ∧ ((c :: text).take 4).all rules.is_digit then some ((c :: text).take 4) else find_year text

/-- `parse::<u32>` of four characters. -/
def parse_u32 (digits : List Char) : Option UInt32 :=
  if digits.all Char.isDigit then some (UInt32.ofNat (digits.foldl (fun n c => 10 * n + (c.toNat - '0'.toNat)) 0)) else none

def extract_year (field : Option String) : Option UInt32 := do
  let text ← field
  let year ← find_year rules text.toList
  parse_u32 year

def parse_metadata (header book_id : String) (word_count unique_words : UInt64) : BookMetadata where
  book_id
  title := (extract_header_field rules header "Title:").getD ("Book " ++ book_id)
  author := (extract_header_field rules header "Author:").getD "Unknown"
  language := (extract_header_field rules header "Language:").getD "unknown"
  year := extract_year rules (extract_header_field rules header "Release Date:")
  word_count
  unique_words

/-- All words, and the different ones whatever their case. -/
def compute_counts (body : String) : UInt64 × UInt64 :=
  let words := word_matches rules.toUnicode body
  (UInt64.ofNat words.length, UInt64.ofNat (words.map fun word => rules.to_lowercase (String.ofList word)).dedup.length)

/-- A text with its header fields, as the server sends it. -/
def sample_text : String :=
  "Title: Emma\r\nRelease Date: August, 1994\r\n\r\n*** START OF THE PROJECT GUTENBERG EBOOK EMMA\r\n" ++
    "Emma the heroine\r\n*** END OF THE PROJECT GUTENBERG EBOOK EMMA"

example : split_gutenberg_text .ascii sample_text =
    some (some ("Title: Emma\r\nRelease Date: August, 1994", "EMMA\r\nEmma the heroine")) := by decide +kernel

example : parse_metadata .ascii "Title: Emma\r\nRelease Date: August, 1994" "158" 4 3 =
    ⟨"158", "Emma", "Unknown", "unknown", some 1994, 4, 3⟩ := by decide +kernel

example : compute_counts .ascii "EMMA\r\nEmma the heroine" = (4, 3) := by decide +kernel

end Ingestion
