import Mathlib.Algebra.Group.Nat.Defs
import Mathlib.Data.List.TakeWhile
/-!
# Compact JSON text

Values, the text they are written as without white space and a reader of such texts.
The reader takes fuel; the length of the text is enough. It reads back what was written.
-/

/-- Values whose numbers are natural ones. -/
inductive JsonText
  | null
  | bool (b : Bool)
  | number (n : Nat)
  | string (s : String)
  | array (items : List JsonText)
  | object (fields : List (String × JsonText))

namespace JsonText

def quote : Char := Char.ofNat 0x22
def backslash : Char := Char.ofNat 0x5c

/-! ## Strings -/

/-- Characters with an escape of two characters. -/
def short_escapes : List (Char × Char) :=
  [(quote, quote), (backslash, backslash), (Char.ofNat 8, 'b'), (Char.ofNat 12, 'f'), (Char.ofNat 10, 'n'),
    (Char.ofNat 13, 'r'), (Char.ofNat 9, 't')]

def escape (c : Char) : List Char :=
  match short_escapes.lookup c with
  | some e => [backslash, e]
  | none =>
    if c.toNat < 32 then [backslash, 'u', '0', '0', (c.toNat / 16).digitChar, (c.toNat % 16).digitChar]
    else [c]

def unescape (e : Char) : Option Char := (short_escapes.find? fun p => p.2 = e).map Prod.fst

def hex_value (c : Char) : Option Nat :=
  if '0' ≤ c ∧ c ≤ '9' then some (c.toNat - 48)
  else if 'a' ≤ c ∧ c ≤ 'f' then some (c.toNat - 87)
  else if 'A' ≤ c ∧ c ≤ 'F' then some (c.toNat - 55)
  else none

def hex_char (a b x y : Char) : Option Char := do
  let n := (((← hex_value a) * 16 + (← hex_value b)) * 16 + (← hex_value x)) * 16 + (← hex_value y)
  if h : n.isValidChar then some (Char.ofNatAux n h) else none

/-- One character of a string, escaped or not, and what follows it. -/
def read_char : List Char → Option (Char × List Char)
  | [] => none
  | c :: rest =>
    if c = backslash then
      match rest with
      | [] => none
      | e :: rest =>
        if e = 'u' then
          match rest with
          | a :: b :: x :: y :: rest => (hex_char a b x y).map (·, rest)
          | _ => none
        else (unescape e).map (·, rest)
    else if c.toNat < 32 then none
    else some (c, rest)

/-- The rest of a string after its opening quote, and what follows it. -/
def read_string : Nat → List Char → Option (List Char × List Char)
  | 0, _ => none
  | fuel + 1, input =>
    if input.head? = some quote then some ([], input.tail)
    else do
      let (c, rest) ← read_char input
      let (s, rest) ← read_string fuel rest
      some (c :: s, rest)

theorem short_escape_spec {c e : Char} (h : short_escapes.lookup c = some e) : e ≠ 'u' ∧ unescape e = some c := by
  have htable : ∀ p ∈ short_escapes, p.2 ≠ 'u' ∧ unescape p.2 = some p.1 := by decide
  obtain ⟨l₁, l₂, hl, -⟩ := List.lookup_eq_some_iff.1 h
  exact htable (c, e) (by simp [hl])

theorem hex_char_spec {c : Char} (h : c.toNat < 32) :
    hex_char '0' '0' (c.toNat / 16).digitChar (c.toNat % 16).digitChar = some c := by
  have htable : ∀ n < 32, hex_char '0' '0' (n / 16).digitChar (n % 16).digitChar = some (Char.ofNat n) := by decide
  rw [htable _ h, Char.ofNat_toNat]

theorem read_char_escape (c : Char) (tail : List Char) : read_char (escape c ++ tail) = some (c, tail) := by
  unfold escape
  cases hc : short_escapes.lookup c with
  | some e =>
    obtain ⟨hu, he⟩ := short_escape_spec hc
    simp [read_char, hu, he]
  | none =>
    have hb : c ≠ backslash := by
      rintro rfl
      exact absurd hc (by decide)
    by_cases h32 : c.toNat < 32
    · simp [read_char, h32, hex_char_spec h32]
    · simp [read_char, h32, hb]

/-- An escape does not look like the end of the string. -/
theorem escape_head (c : Char) (tail : List Char) : (escape c ++ tail).head? ≠ some quote := by
  unfold escape
  cases hc : short_escapes.lookup c with
  | some e => simp [show backslash ≠ quote by decide]
  | none =>
    have hq : c ≠ quote := by
      rintro rfl
      exact absurd hc (by decide)
    by_cases h32 : c.toNat < 32
    · simp [h32, show backslash ≠ quote by decide]
    · simp [h32, hq]

theorem escape_length (c : Char) : 0 < (escape c).length := by
  unfold escape
  split
  · simp
  · split <;> simp

theorem read_string_escaped (s rest : List Char) (fuel : Nat) (h : (s.flatMap escape).length < fuel) :
    read_string fuel (s.flatMap escape ++ quote :: rest) = some (s, rest) := by
  induction s generalizing fuel with
  | nil =>
    obtain ⟨fuel, rfl⟩ := Nat.exists_eq_add_one.2 (Nat.zero_lt_of_lt h)
    simp [read_string]
  | cons c s ih =>
    obtain ⟨fuel, rfl⟩ := Nat.exists_eq_add_one.2 (Nat.zero_lt_of_lt h)
    have hc := escape_length c
    rw [List.flatMap_cons, List.length_append] at h
    rw [List.flatMap_cons, List.append_assoc, read_string, if_neg (escape_head c _), read_char_escape]
    simp [ih fuel (by omega)]

/-! ## Values -/

def print_string (s : String) : List Char := quote :: (s.toList.flatMap escape ++ [quote])

mutual

def print : JsonText → List Char
  | .null => ['n', 'u', 'l', 'l']
  | .bool true => ['t', 'r', 'u', 'e']
  | .bool false => ['f', 'a', 'l', 's', 'e']
  | .number n => Nat.toDigits 10 n
  | .string s => print_string s
  | .array [] => ['[', ']']
  | .array (v :: vs) => '[' :: (print v ++ print_items vs)
  | .object [] => ['\x7b', '\x7d']
  | .object ((name, v) :: fields) => '\x7b' :: (print_string name ++ ':' :: (print v ++ print_fields fields))

/-- The items after the first and the closing bracket. -/
def print_items : List JsonText → List Char
  | [] => [']']
  | v :: vs => ',' :: (print v ++ print_items vs)

def print_fields : List (String × JsonText) → List Char
  | [] => ['\x7d']
  | (name, v) :: fields => ',' :: (print_string name ++ ':' :: (print v ++ print_fields fields))

end

/-- `word` must come next. -/
def expect {α : Type} (word : List Char) (a : α) (input : List Char) : Option (α × List Char) :=
  if input.take word.length = word then some (a, input.drop word.length) else none

mutual

def parse : Nat → List Char → Option (JsonText × List Char)
  | 0, _ => none
  | _, [] => none
  | fuel + 1, c :: rest =>
    if c.isDigit then
      some (.number (Nat.ofDigitChars 10 ((c :: rest).takeWhile Char.isDigit) 0), (c :: rest).dropWhile Char.isDigit)
    else if c = quote then do
      let (s, rest) ← read_string fuel rest
      some (.string (String.ofList s), rest)
    else if c = '[' then
      if rest.head? = some ']' then some (.array [], rest.tail)
      else do
        let (v, rest) ← parse fuel rest
        let (vs, rest) ← parse_items fuel rest
        some (.array (v :: vs), rest)
    else if c = '\x7b' then
      if rest.head? = some '\x7d' then some (.object [], rest.tail)
      else do
        let (field, rest) ← parse_field fuel rest
        let (fields, rest) ← parse_fields fuel rest
        some (.object (field :: fields), rest)
    else if c = 'n' then expect ['u', 'l', 'l'] .null rest
    else if c = 't' then expect ['r', 'u', 'e'] (.bool true) rest
    else if c = 'f' then expect ['a', 'l', 's', 'e'] (.bool false) rest
    else none

def parse_items : Nat → List Char → Option (List JsonText × List Char)
  | 0, _ => none
  | _, [] => none
  | fuel + 1, c :: rest =>
    if c = ']' then some ([], rest)
    else if c = ',' then do
      let (v, rest) ← parse fuel rest
      let (vs, rest) ← parse_items fuel rest
      some (v :: vs, rest)
    else none

/-- `"name":value` -/
def parse_field : Nat → List Char → Option ((String × JsonText) × List Char)
  | 0, _ => none
  | _, [] => none
  | fuel + 1, c :: rest =>
    if c = quote then do
      let (name, rest) ← read_string fuel rest
      let (_, rest) ← expect [':'] () rest
      let (v, rest) ← parse fuel rest
      some ((String.ofList name, v), rest)
    else none

def parse_fields : Nat → List Char → Option (List (String × JsonText) × List Char)
  | 0, _ => none
  | _, [] => none
  | fuel + 1, c :: rest =>
    if c = '\x7d' then some ([], rest)
    else if c = ',' then do
      let (field, rest) ← parse_field fuel rest
      let (fields, rest) ← parse_fields fuel rest
      some (field :: fields, rest)
    else none

end

/-! ## Reading what was written -/

/-- What follows a value does not go on with its number. -/
def Ends (rest : List Char) : Prop := ∀ c ∈ rest.head?, c.isDigit = false

theorem ends_items (vs : List JsonText) (rest : List Char) : Ends (print_items vs ++ rest) := by
  cases vs <;> simp [Ends, print_items]

theorem ends_fields (fields : List (String × JsonText)) (rest : List Char) : Ends (print_fields fields ++ rest) := by
  cases fields <;> simp [Ends, print_fields]

theorem parse_number (n : Nat) {rest : List Char} (h : Ends rest) (fuel : Nat) :
    parse (fuel + 1) (Nat.toDigits 10 n ++ rest) = some (.number n, rest) := by
  have hdigits : ∀ c ∈ Nat.toDigits 10 n, c.isDigit = true := fun c hc =>
    Nat.isDigit_of_mem_toDigits (by decide) (by decide) hc
  have hend : rest.takeWhile Char.isDigit = [] ∧ rest.dropWhile Char.isDigit = rest := by
    cases rest with
    | nil => exact ⟨rfl, rfl⟩
    | cons c cs =>
      have hc : c.isDigit = false := h c rfl
      simp [hc]
  have htake : (Nat.toDigits 10 n ++ rest).takeWhile Char.isDigit = Nat.toDigits 10 n := by
    rw [List.takeWhile_append_of_pos hdigits, hend.1, List.append_nil]
  have hdrop : (Nat.toDigits 10 n ++ rest).dropWhile Char.isDigit = rest := by
    rw [List.dropWhile_append_of_pos hdigits, hend.2]
  cases hd : Nat.toDigits 10 n with
  | nil => exact absurd hd Nat.toDigits_ne_nil
  | cons c cs =>
    rw [hd] at htake hdrop hdigits
    rw [List.cons_append] at htake hdrop ⊢
    simp only [parse, hdigits c List.mem_cons_self, if_true, htake, hdrop]
    rw [← hd, Nat.ofDigitChars_ten_toDigits]

theorem parse_string (s : String) (rest : List Char) {fuel : Nat} (h : (print_string s).length ≤ fuel + 1) :
    parse (fuel + 1) (print_string s ++ rest) = some (.string s, rest) := by
  rw [print_string, List.length_cons, List.length_append, List.length_singleton] at h
  have hread := read_string_escaped s.toList rest fuel (by omega)
  simp [print_string, parse, show quote.isDigit = false by decide, hread]

/-- No value is written like the end of an array. -/
theorem print_head (v : JsonText) (rest : List Char) : (print v ++ rest).head? ≠ some ']' := by
  cases v with
  | number n =>
    cases hd : Nat.toDigits 10 n with
    | nil => exact absurd hd Nat.toDigits_ne_nil
    | cons c cs =>
      have hc : c.isDigit = true := Nat.isDigit_of_mem_toDigits (by decide) (by decide) (hd ▸ List.mem_cons_self)
      simp only [print, hd, List.cons_append, List.head?_cons, ne_eq, Option.some.injEq]
      rintro rfl
      exact absurd hc (by decide)
  | bool b => cases b <;> simp [print]
  | array items => cases items <;> simp [print]
  | object fields => cases fields <;> simp [print]
  | null => simp [print]
  | string s => simp [print, print_string, show quote ≠ ']' by decide]

theorem print_length (v : JsonText) : 0 < (print v).length := by
  cases v with
  | number n => exact Nat.length_toDigits_pos
  | bool b => cases b <;> simp [print]
  | array items => cases items <;> simp [print]
  | object fields => cases fields <;> simp [print]
  | null => simp [print]
  | string s => simp [print, print_string]

/-- A field is read once its value is. -/
theorem parse_field_print (name : String) {v : JsonText} {rest : List Char} (fuel : Nat)
    (hname : (print_string name).length ≤ fuel + 1) (h : parse fuel (print v ++ rest) = some (v, rest)) :
    parse_field (fuel + 1) (print_string name ++ ':' :: (print v ++ rest)) = some ((name, v), rest) := by
  rw [print_string, List.length_cons, List.length_append, List.length_singleton] at hname
  have hread := read_string_escaped name.toList (':' :: (print v ++ rest)) fuel (by omega)
  simp [print_string, parse_field, expect, hread, h]

mutual

theorem parse_print (v : JsonText) (rest : List Char) (hrest : Ends rest) (fuel : Nat)
    (h : (print v).length ≤ fuel) : parse fuel (print v ++ rest) = some (v, rest) := by
  obtain ⟨fuel, rfl⟩ := Nat.exists_eq_add_one.2 (Nat.lt_of_lt_of_le (print_length v) h)
  match v with
  | .null => simp [print, parse, expect, quote]
  | .bool true => simp [print, parse, expect, quote]
  | .bool false => simp [print, parse, expect, quote]
  | .number n => exact parse_number n hrest fuel
  | .string s => exact parse_string s rest h
  | .array [] => simp [print, parse, quote]
  | .array (v :: vs) =>
    rw [print, List.length_cons, List.length_append] at h
    have hv := parse_print v (print_items vs ++ rest) (ends_items vs rest) fuel (by omega)
    have hvs := parse_items_print vs rest fuel (by omega)
    have hhead := print_head v (print_items vs ++ rest)
    simp [print, parse, quote, hhead, hv, hvs, -List.head?_append]
  | .object [] => simp [print, parse, quote]
  | .object ((name, v) :: fields) =>
    rw [print, List.length_cons, List.length_append, List.length_cons, List.length_append] at h
    have hpos : 0 < (print_string name).length := by simp [print_string]
    obtain ⟨fuel, rfl⟩ := Nat.exists_eq_add_one.2 (show 0 < fuel by omega)
    have hv := parse_print v (print_fields fields ++ rest) (ends_fields fields rest) fuel (by omega)
    have hfield := parse_field_print name fuel (by omega) hv
    have hfields := parse_fields_print fields rest (fuel + 1) (by omega)
    have hhead : ∀ tail, (print_string name ++ tail).head? ≠ some '\x7d' := fun tail => by
      simp [print_string, show quote ≠ '\x7d' by decide]
    rw [print, List.cons_append, List.append_assoc, List.cons_append, List.append_assoc, parse]
    simp [show ('\x7b'.isDigit) = false by decide, show '\x7b' ≠ quote by decide, hhead, hfield, hfields,
      -List.head?_append]

theorem parse_items_print (vs : List JsonText) (rest : List Char) (fuel : Nat)
    (h : (print_items vs).length ≤ fuel) : parse_items fuel (print_items vs ++ rest) = some (vs, rest) := by
  match vs with
  | [] =>
    obtain ⟨fuel, rfl⟩ := Nat.exists_eq_add_one.2 (show 0 < fuel from h)
    simp [print_items, parse_items]
  | v :: vs =>
    rw [print_items, List.length_cons, List.length_append] at h
    obtain ⟨fuel, rfl⟩ := Nat.exists_eq_add_one.2 (show 0 < fuel by omega)
    have hv := parse_print v (print_items vs ++ rest) (ends_items vs rest) fuel (by omega)
    have hvs := parse_items_print vs rest fuel (by omega)
    simp [print_items, parse_items, hv, hvs]

theorem parse_fields_print (fields : List (String × JsonText)) (rest : List Char) (fuel : Nat)
    (h : (print_fields fields).length ≤ fuel) :
    parse_fields fuel (print_fields fields ++ rest) = some (fields, rest) := by
  match fields with
  | [] =>
    obtain ⟨fuel, rfl⟩ := Nat.exists_eq_add_one.2 (show 0 < fuel from h)
    simp [print_fields, parse_fields]
  | (name, v) :: fields =>
    rw [print_fields, List.length_cons, List.length_append, List.length_cons, List.length_append] at h
    have hpos : 0 < (print_string name).length := by simp [print_string]
    obtain ⟨fuel, rfl⟩ := Nat.exists_eq_add_one.2 (show 0 < fuel by omega)
    obtain ⟨fuel, rfl⟩ := Nat.exists_eq_add_one.2 (show 0 < fuel by omega)
    have hv := parse_print v (print_fields fields ++ rest) (ends_fields fields rest) fuel (by omega)
    have hfield := parse_field_print name fuel (by omega) hv
    have hfields := parse_fields_print fields rest (fuel + 1) (by omega)
    simp [print_fields, parse_fields, hfield, hfields]

end

/-- The text of a value. -/
def to_text (v : JsonText) : String := String.ofList (print v)

/-- The value a text is all of. -/
def from_text (text : String) : Option JsonText :=
  match parse text.length text.toList with
  | some (v, []) => some v
  | _ => none

theorem from_text_to_text (v : JsonText) : from_text (to_text v) = some v := by
  have h := parse_print v [] (by simp [Ends]) (print v).length le_rfl
  rw [List.append_nil] at h
  simp [from_text, to_text, h]

/-! ## Structures -/

/-- The values of the fields of a structure that was written as an object. -/
def fields_of (names : List String) : JsonText → Option (List JsonText)
  | .object fields => names.mapM fun name => fields.lookup name
  | _ => none

def as_string : JsonText → Option String
  | .string s => some s
  | _ => none

def as_u32 : JsonText → Option UInt32
  | .number n => if n < 2 ^ 32 then some (UInt32.ofNat n) else none
  | _ => none

def as_u64 : JsonText → Option UInt64
  | .number n => if n < 2 ^ 64 then some (UInt64.ofNat n) else none
  | _ => none

@[simp] theorem as_string_string (s : String) : as_string (.string s) = some s := rfl

@[simp] theorem as_u32_number (n : UInt32) : as_u32 (.number n.toNat) = some n := by
  rw [as_u32, if_pos n.toNat_lt, UInt32.ofNat_toNat]

@[simp] theorem as_u64_number (n : UInt64) : as_u64 (.number n.toNat) = some n := by
  rw [as_u64, if_pos n.toNat_lt, UInt64.ofNat_toNat]

end JsonText
