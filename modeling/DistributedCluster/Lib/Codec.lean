import Mathlib.Data.Nat.Digits.Lemmas
import DistributedCluster.Lib.Url
/-!
# Binary codecs

Values in a stream of bytes: what the encoder writes, the decoder reads back and
leaves the rest. Records, variants and sequences are put together from words of a
fixed width. A codec carries its law, so what is put together has it too.
-/

/-- `valid` are the values that the format can hold. -/
structure Codec (α : Type) where
  valid : α → Bool
  encode : α → Url.Bytes
  decode : Url.Bytes → Option (α × Url.Bytes)
  decode_encode : ∀ a, valid a = true → ∀ rest, decode (encode a ++ rest) = some (a, rest)

namespace Codec

open Url (Bytes)

variable {α β τ : Type}

/-! ## Codecs from others -/

/-- Values that `f` makes of others, and `g` takes apart; those with `P`. -/
def refine (c : Codec α) (P : β → Bool) (f : α → Option β) (g : β → α) (hfg : ∀ b, P b = true → f (g b) = some b) :
    Codec β where
  valid b := P b && c.valid (g b)
  encode b := c.encode (g b)
  decode l :=
    match c.decode l with
    | none => none
    | some (a, rest) => (f a).map fun b => (b, rest)
  decode_encode b h rest := by
    rw [Bool.and_eq_true] at h
    simp [c.decode_encode _ h.2, hfg b h.1]

/-- A value, and one that may depend on it. -/
def sigma {β : τ → Type} (c : Codec τ) (body : (t : τ) → Codec (β t)) : Codec (Σ t, β t) where
  valid x := c.valid x.1 && (body x.1).valid x.2
  encode x := c.encode x.1 ++ (body x.1).encode x.2
  decode l :=
    match c.decode l with
    | none => none
    | some (t, rest) => ((body t).decode rest).map fun r => (⟨t, r.1⟩, r.2)
  decode_encode x h rest := by
    rw [Bool.and_eq_true] at h
    simp [List.append_assoc, c.decode_encode _ h.1, (body x.1).decode_encode _ h.2]

/-- One value after the other. -/
def pair (c : Codec α) (d : Codec β) : Codec (α × β) :=
  (c.sigma fun _ => d).refine (fun _ => true) (fun x => some (x.1, x.2)) (fun x => ⟨x.1, x.2⟩) (fun _ _ => rfl)

/-- So many values, one after the other. -/
def decode_all (c : Codec α) : Nat → Bytes → Option (List α × Bytes)
  | 0, l => some ([], l)
  | n + 1, l =>
    match c.decode l with
    | none => none
    | some (a, rest) => (decode_all c n rest).map fun r => (a :: r.1, r.2)

theorem decode_all_encode (c : Codec α) {as : List α} (h : ∀ a ∈ as, c.valid a = true) (rest : Bytes) :
    c.decode_all as.length (as.flatMap c.encode ++ rest) = some (as, rest) := by
  induction as with
  | nil => rfl
  | cons a as ih =>
    simp [decode_all, List.append_assoc, c.decode_encode a (h a List.mem_cons_self),
      ih fun b hb => h b (List.mem_cons_of_mem _ hb)]

/-- As many values as `count` says in front of them. -/
def counted (count : Codec Nat) (c : Codec α) : Codec (List α) where
  valid as := count.valid as.length && as.all c.valid
  encode as := count.encode as.length ++ as.flatMap c.encode
  decode l :=
    match count.decode l with
    | none => none
    | some (n, rest) => c.decode_all n rest
  decode_encode as h rest := by
    rw [Bool.and_eq_true, List.all_eq_true] at h
    simp [List.append_assoc, count.decode_encode _ h.1, c.decode_all_encode h.2]

/-! ## Words -/

def byte : Codec UInt8 where
  valid _ := true
  encode b := [b]
  decode
    | [] => none
    | b :: rest => some (b, rest)
  decode_encode _ _ _ := rfl

inductive ByteOrder
  | little_endian
  | big_endian

/-- Bytes with the lowest one first. -/
def ByteOrder.lowest_first : ByteOrder → Bytes → Bytes
  | .little_endian, l => l
  | .big_endian, l => l.reverse

@[simp] theorem ByteOrder.lowest_first_twice (order : ByteOrder) (l : Bytes) :
    order.lowest_first (order.lowest_first l) = l := by
  cases order <;> simp [lowest_first]

@[simp] theorem ByteOrder.length_lowest_first (order : ByteOrder) (l : Bytes) :
    (order.lowest_first l).length = l.length := by
  cases order <;> simp [lowest_first]

/-- The lowest byte first; what does not fit is cut off. -/
def digits (width n : Nat) : Bytes := (Nat.digitsAppend 256 width (n % 256 ^ width)).map UInt8.ofNat

def value (l : Bytes) : Nat := Nat.ofDigits 256 (l.map UInt8.toNat)

@[simp] theorem length_digits (width n : Nat) : (digits width n).length = width := by
  have hlt : n % 256 ^ width < 256 ^ width := Nat.mod_lt _ (Nat.pow_pos (by omega))
  simp [digits, Nat.length_digitsAppend (by omega : 1 < 256) width hlt]

theorem value_digits {width n : Nat} (h : n < 256 ^ width) : value (digits width n) = n := by
  have hbytes : ((Nat.digitsAppend 256 width n).map UInt8.ofNat).map UInt8.toNat = Nat.digitsAppend 256 width n := by
    rw [List.map_map]
    refine (List.map_congr_left fun d hd => ?_).trans (List.map_id _)
    simp [Nat.mod_eq_of_lt (Nat.lt_of_mem_digitsAppend (by omega : 1 < 256) width d hd)]
  rw [value, digits, Nat.mod_eq_of_lt h, hbytes]
  exact (Nat.setInvOn_digitsAppend_ofDigits (by omega : 1 < 256) width).2 h

/-- Natural numbers in so many bytes. -/
def word (order : ByteOrder) (width : Nat) : Codec Nat where
  valid n := n < 256 ^ width
  encode n := order.lowest_first (digits width n)
  decode l :=
    if width ≤ l.length then some (value (order.lowest_first (l.take width)), l.drop width) else none
  decode_encode n h rest := by simp [value_digits (of_decide_eq_true h)]

/-- One of some values, by its place among them. -/
def index [DecidableEq α] (place : Codec Nat) (values : List α) : Codec α :=
  place.refine (fun a => a ∈ values) (fun n => values[n]?) values.idxOf
    (fun a ha => by simp [List.idxOf_lt_length_iff.2 (of_decide_eq_true ha)])

/-- UTF-8 with its length in front. -/
def text (count : Codec Nat) : Codec String :=
  (counted count byte).refine (fun _ => true) (fun l => String.fromUTF8? ⟨l.toArray⟩) Url.bytes
    (fun _ _ => Url.fromUTF8?_eq_some.2 rfl)

/-! ## How long and how valid the parts are -/

section Parts

variable {order : ByteOrder} {width : Nat}

theorem encode_refine (c : Codec α) {P : β → Bool} {f : α → Option β} {g : β → α} {h} (b : β) :
    (c.refine P f g h).encode b = c.encode (g b) := rfl

@[simp] theorem valid_refine {c : Codec α} {P : β → Bool} {f : α → Option β} {g : β → α} {h} {b : β} :
    (c.refine P f g h).valid b = true ↔ P b = true ∧ c.valid (g b) = true := by simp [refine]

@[simp] theorem length_sigma {β : τ → Type} (c : Codec τ) (body : (t : τ) → Codec (β t)) (x : Σ t, β t) :
    ((c.sigma body).encode x).length = (c.encode x.1).length + ((body x.1).encode x.2).length := by simp [sigma]

@[simp] theorem valid_sigma {β : τ → Type} {c : Codec τ} {body : (t : τ) → Codec (β t)} {x : Σ t, β t} :
    (c.sigma body).valid x = true ↔ c.valid x.1 = true ∧ (body x.1).valid x.2 = true := by simp [sigma]

@[simp] theorem length_word (n : Nat) : ((word order width).encode n).length = width := by simp [word]

@[simp] theorem length_pair (c : Codec α) (d : Codec β) (x : α × β) :
    ((c.pair d).encode x).length = (c.encode x.1).length + (d.encode x.2).length := by
  simp [pair, encode_refine]

@[simp] theorem length_counted (count : Codec Nat) (c : Codec α) (as : List α) :
    ((counted count c).encode as).length = (count.encode as.length).length + (as.map fun a => (c.encode a).length).sum := by
  simp [counted, List.length_flatMap]

theorem length_bytes (t : String) : (Url.bytes t).length = t.utf8ByteSize := by
  rw [Url.bytes, ← String.size_toByteArray]
  rfl

@[simp] theorem length_text (count : Codec Nat) (t : String) :
    ((text count).encode t).length = (count.encode t.utf8ByteSize).length + t.utf8ByteSize := by
  rw [← length_bytes t]
  simp [text, encode_refine, byte]

@[simp] theorem length_index [DecidableEq α] (values : List α) (a : α) :
    ((index (word order width) values).encode a).length = width := by simp [index, encode_refine]

@[simp] theorem valid_word {n : Nat} : (word order width).valid n = true ↔ n < 256 ^ width := decide_eq_true_iff

@[simp] theorem valid_pair {c : Codec α} {d : Codec β} {x : α × β} :
    (c.pair d).valid x = true ↔ c.valid x.1 = true ∧ d.valid x.2 = true := by simp [pair]

@[simp] theorem valid_counted {count : Codec Nat} {c : Codec α} {as : List α} :
    (counted count c).valid as = true ↔ count.valid as.length = true ∧ ∀ a ∈ as, c.valid a = true := by
  simp [counted]

@[simp] theorem valid_text {count : Codec Nat} {t : String} : (text count).valid t = true ↔ count.valid t.utf8ByteSize = true := by
  rw [← length_bytes t]
  simp [text, byte]

theorem valid_index [DecidableEq α] {values : List α} {a : α} (ha : a ∈ values) (hsize : values.length < 256 ^ width) :
    (index (word order width) values).valid a = true := by
  simp only [index, valid_refine, decide_eq_true_eq, valid_word]
  exact ⟨ha, Nat.lt_of_le_of_lt List.idxOf_le_length hsize⟩

end Parts

end Codec
