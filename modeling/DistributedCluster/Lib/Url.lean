import Mathlib.Data.List.DropRight
import Mathlib.Data.List.Infix
import Mathlib.Data.FinEnum
import DistributedCluster.Lib.Http
/-!
# Texts in a URL

A client puts a text into the path of an `http` URL as it is. What a handler at
the other end gets is up to the client's URL parser, which drops, splits, resolves
and escapes, and to the server's router, which matches and unescapes. Only ASCII
characters matter to them, so both work on UTF-8 here. `routed_iff` says which
texts arrive.
-/

namespace Url

abbrev Bytes := List UInt8

def bytes (text : String) : Bytes := text.toByteArray.data.toList

/-! ## The client's parser -/

/-- Controls and the space, dropped at the end of a URL. -/
def is_control_or_space (b : UInt8) : Bool := b ≤ 0x20

/-- Tab, line feed and carriage return, dropped everywhere. -/
def is_tab_or_newline (b : UInt8) : Bool := b = 0x09 || b = 0x0A || b = 0x0D

/-- A question mark or a number sign. -/
def ends_path (b : UInt8) : Bool := b = 0x3F || b = 0x23

/-- A slash or a backslash. -/
def is_separator (b : UInt8) : Bool := b = 0x2F || b = 0x5C

/-- Controls, what is not ASCII, the space and `"`, `#`, `<`, `>`, `?`, the backquote, `{`, `}`. -/
def is_escaped (b : UInt8) : Bool :=
  b ≤ 0x20 || 0x7F ≤ b || [0x22, 0x23, 0x3C, 0x3E, 0x3F, 0x60, 0x7B, 0x7D].contains b

def percent : UInt8 := 0x25

def hex_digit (n : Nat) : UInt8 := if n < 10 then UInt8.ofNat (0x30 + n) else UInt8.ofNat (0x37 + n)

def escape (b : UInt8) : Bytes :=
  if is_escaped b then [percent, hex_digit (b.toNat / 16), hex_digit (b.toNat % 16)] else [b]

def escape_all (segment : Bytes) : Bytes := segment.flatMap escape

/-- `.` and the two ways to escape it. -/
def dots : List Bytes := [[0x2E], [percent, 0x32, 0x65], [percent, 0x32, 0x45]]

def is_single_dot (segment : Bytes) : Bool := dots.contains segment

def is_double_dot (segment : Bytes) : Bool := dots.any fun a => dots.any fun b => segment = a ++ b

/-- Add a segment to the path; dots are resolved, and leave an empty segment at the end. -/
def add_segment (path : List Bytes) (segment : Bytes) (last : Bool) : List Bytes :=
  if is_double_dot segment then if last then path.dropLast ++ [[]] else path.dropLast
  else if is_single_dot segment then if last then path ++ [[]] else path
  else path ++ [segment]

def resolve (path : List Bytes) : List Bytes → List Bytes
  | [] => path
  | segment :: segments => resolve (add_segment path segment segments.isEmpty) segments

/-- What is left of a text for the path. -/
def path_text (text : Bytes) : Bytes :=
  ((text.rdropWhile is_control_or_space).filter fun b => !is_tab_or_newline b).takeWhile fun b => !ends_path b

/-- The path of a URL by its text after the first slash. -/
def parse_path (text : Bytes) : List Bytes :=
  resolve [] (((path_text text).splitOnP is_separator).map escape_all)

/-! ## The server's router -/

def hex_value (b : UInt8) : Option Nat :=
  if 0x30 ≤ b ∧ b ≤ 0x39 then some (b.toNat - 0x30)
  else if 0x41 ≤ b ∧ b ≤ 0x46 then some (b.toNat - 0x37)
  else if 0x61 ≤ b ∧ b ≤ 0x66 then some (b.toNat - 0x57)
  else none

/-- The byte that a percent sign and two hexadecimal digits stand for. -/
def escaped_byte (a b c : UInt8) : Option UInt8 :=
  if a = percent then do some (UInt8.ofNat (16 * (← hex_value b) + (← hex_value c))) else none

def unescape : Bytes → Bytes
  | a :: b :: c :: rest =>
    match escaped_byte a b c with
    | some x => x :: unescape rest
    | none => a :: unescape (b :: c :: rest)
  | short => short

/-- What the route `base/:param` binds: one segment that is not empty. -/
def bound (base path : List Bytes) : Option Bytes :=
  match path.getLast? with
  | some segment => if path.dropLast = base ∧ segment ≠ [] then some segment else none
  | none => none

/-- A parameter that is no UTF-8 is a bad request. -/
def decode (segment : Bytes) : Except StatusCode String :=
  match String.fromUTF8? ⟨(unescape segment).toArray⟩ with
  | some text => .ok text
  | none => .error .BAD_REQUEST

/-! ## From one to the other -/

/-- Letters, digits, hyphens and underscores. -/
def is_literal (b : UInt8) : Bool :=
  (0x30 ≤ b && b ≤ 0x39) || (0x41 ≤ b && b ≤ 0x5A) || (0x61 ≤ b && b ≤ 0x7A) || b = 0x2D || b = 0x5F

/-- The segments of a route in front of its parameter. -/
structure BasePath where
  segments : List Bytes
  literal : ∀ segment ∈ segments, ∀ b ∈ segment, is_literal b

/-- `text` is put behind the segments of `base`. -/
def splice (base : List Bytes) (text : Bytes) : Bytes := base.flatMap (fun segment => segment ++ [0x2F]) ++ text

/-- What the server hands to the handler of `base/:param` when a client put `text`
in the parameter's place. Paths of other routes are answered by `elsewhere`. -/
def routed (base : BasePath) (elsewhere : List Bytes → StatusCode) (text : String) : Except StatusCode String :=
  let path := parse_path (splice base.segments (bytes text))
  match bound base.segments path with
  | some segment => decode segment
  | none => .error (elsewhere path)

/-- Two hexadecimal digits follow a percent sign. -/
def Escaping (text : Bytes) : Prop := ∃ b c, [percent, b, c] <:+: text ∧ (escaped_byte percent b c).isSome

/-- The texts that neither the client nor the server reads as anything else. -/
structure Plain (text : Bytes) : Prop where
  nonempty : text ≠ []
  path : ∀ b ∈ text, is_tab_or_newline b = false ∧ is_separator b = false ∧ ends_path b = false
  last : ∀ b, text.getLast? = some b → is_control_or_space b = false
  dots : text ≠ [0x2E] ∧ text ≠ [0x2E, 0x2E]
  escapes : ¬ Escaping text

/-! ## Escaping -/

theorem not_escaped_hex : ∀ b : UInt8, (hex_value b).isSome → is_escaped b = false := by decide +kernel

theorem not_escaped_literal : ∀ b : UInt8, is_literal b → is_escaped b = false ∧ is_tab_or_newline b = false ∧
    is_separator b = false ∧ ends_path b = false := by decide +kernel

theorem hex_value_hex_digit : ∀ n < 16, hex_value (hex_digit n) = some n := by decide

theorem escape_of_not_escaped {b : UInt8} (h : is_escaped b = false) : escape b = [b] := by simp [escape, h]

theorem escape_all_cons (b : UInt8) (l : Bytes) : escape_all (b :: l) = escape b ++ escape_all l := List.flatMap_cons

theorem isSome_escaped_byte {a b c : UInt8} :
    (escaped_byte a b c).isSome ↔ a = percent ∧ (hex_value b).isSome ∧ (hex_value c).isSome := by
  unfold escaped_byte
  split
  · cases hex_value b <;> cases hex_value c <;> simp [*]
  · simp [*]

/-- The escape of a byte stands for it. -/
theorem escaped_byte_hex_digits (b : UInt8) :
    escaped_byte percent (hex_digit (b.toNat / 16)) (hex_digit (b.toNat % 16)) = some b := by
  have hb := b.toNat_lt
  have hhigh := hex_value_hex_digit (b.toNat / 16) (by omega)
  have hlow := hex_value_hex_digit (b.toNat % 16) (Nat.mod_lt _ (by decide))
  have hsum : 16 * (b.toNat / 16) + b.toNat % 16 = b.toNat := Nat.div_add_mod _ _
  simp only [escaped_byte, if_true, hhigh, hlow, Option.bind_eq_bind, Option.bind_some, hsum, UInt8.ofNat_toNat]

theorem unescape_cons {a : UInt8} {l : Bytes}
    (h : ∀ b c rest, l = b :: c :: rest → escaped_byte a b c = none) : unescape (a :: l) = a :: unescape l := by
  match l with
  | [] => rfl
  | [b] => rfl
  | b :: c :: rest => rw [unescape, h b c rest rfl]

theorem short_of_length {a : UInt8} {l : Bytes} (h : l.length < 2) :
    ∀ b c rest, l = b :: c :: rest → escaped_byte a b c = none := by
  rintro b c rest rfl
  simp only [List.length_cons] at h
  omega

theorem unescape_escape (b : UInt8) (l : Bytes) :
    is_escaped b → unescape (escape b ++ l) = b :: unescape l := by
  intro h
  simp only [escape, h, if_true, List.cons_append, List.nil_append]
  rw [unescape, escaped_byte_hex_digits]

/-- Escaping neither makes nor breaks an escape: what it writes starts with a percent
sign, and what it leaves are all the hexadecimal digits. -/
theorem hex_of_escape_all {l : Bytes} {b c : UInt8} {rest : Bytes} (h : escape_all l = b :: c :: rest)
    (hb : (hex_value b).isSome) (hc : (hex_value c).isSome) : ∃ rest', l = b :: c :: rest' := by
  have hhead : ∀ {x : UInt8} {l : Bytes} {y : UInt8} {rest : Bytes}, escape x ++ escape_all l = y :: rest →
      (hex_value y).isSome → x = y ∧ escape_all l = rest := by
    intro x l y rest hx hy
    unfold escape at hx
    split at hx
    · simp only [List.cons_append, List.cons.injEq] at hx
      rw [← hx.1] at hy
      exact absurd hy (by decide)
    · simpa using hx
  cases l with
  | nil => cases h
  | cons x l =>
    obtain ⟨rfl, htail⟩ := hhead (by rwa [escape_all_cons] at h) hb
    cases l with
    | nil => cases htail
    | cons y l =>
      obtain ⟨rfl, -⟩ := hhead (by rwa [escape_all_cons] at htail) hc
      exact ⟨l, rfl⟩

theorem unescape_escape_all_cons {a : UInt8} {l : Bytes}
    (h : ∀ b c rest, l = b :: c :: rest → escaped_byte a b c = none) :
    unescape (escape_all (a :: l)) = a :: unescape (escape_all l) := by
  rw [escape_all_cons]
  cases ha : is_escaped a with
  | true => exact unescape_escape a _ ha
  | false =>
    rw [escape_of_not_escaped ha]
    refine unescape_cons fun b c rest hl => ?_
    by_contra hsome
    obtain ⟨-, hb, hc⟩ := isSome_escaped_byte.1 (Option.isSome_iff_ne_none.2 hsome)
    obtain ⟨rest', hl'⟩ := hex_of_escape_all hl hb hc
    exact hsome (h b c rest' hl')

theorem unescape_escape_all (l : Bytes) : unescape (escape_all l) = unescape l := by
  induction l using unescape.induct with
  | case1 a b c rest x hx ih =>
    obtain ⟨rfl, hb, hc⟩ := isSome_escaped_byte.1 (Option.isSome_of_eq_some hx)
    rw [escape_all_cons, escape_all_cons, escape_all_cons, escape_of_not_escaped (not_escaped_hex b hb),
      escape_of_not_escaped (not_escaped_hex c hc), escape_of_not_escaped (by decide : is_escaped percent = false)]
    simp only [List.cons_append, List.nil_append]
    rw [unescape, unescape, hx]
    simp only [ih]
  | case2 a b c rest hx ih =>
    have hnext : ∀ b' c' rest', b :: c :: rest = b' :: c' :: rest' → escaped_byte a b' c' = none := by
      rintro b' c' rest' ⟨⟩
      exact hx
    rw [unescape_escape_all_cons hnext, unescape_cons hnext, ih]
  | case3 l hshort =>
    match l with
    | [] => rfl
    | [a] => exact unescape_escape_all_cons (short_of_length (by simp))
    | [a, b] =>
      rw [unescape_escape_all_cons (short_of_length (l := [b]) (by simp)), unescape_escape_all_cons (short_of_length (by simp))]
      rfl
    | a :: b :: c :: rest => exact (hshort a b c rest rfl).elim

theorem escaping_cons {a : UInt8} {l : Bytes} :
    Escaping (a :: l) ↔ (∃ b c rest, l = b :: c :: rest ∧ (escaped_byte a b c).isSome) ∨ Escaping l := by
  constructor
  · rintro ⟨b, c, hinfix, hsome⟩
    rcases List.infix_cons_iff.1 hinfix with ⟨rest, hrest⟩ | hinfix
    · cases hrest
      exact .inl ⟨b, c, rest, rfl, hsome⟩
    · exact .inr ⟨b, c, hinfix, hsome⟩
  · rintro (⟨b, c, rest, rfl, hsome⟩ | ⟨b, c, hinfix, hsome⟩)
    · obtain ⟨rfl, -⟩ := isSome_escaped_byte.1 hsome
      exact ⟨b, c, ⟨[], rest, rfl⟩, hsome⟩
    · exact ⟨b, c, List.infix_cons hinfix, hsome⟩

theorem unescape_of_not_escaping {l : Bytes} (h : ¬ Escaping l) : unescape l = l := by
  induction l with
  | nil => rfl
  | cons a l ih =>
    rw [escaping_cons, not_or] at h
    rw [unescape_cons, ih h.2]
    intro b c rest hl
    exact Option.not_isSome_iff_eq_none.1 fun hsome => h.1 ⟨b, c, rest, hl, hsome⟩

theorem length_unescape (l : Bytes) : (unescape l).length ≤ l.length ∧ (Escaping l → (unescape l).length < l.length) := by
  induction l using unescape.induct with
  | case1 a b c rest x hx ih =>
    rw [unescape, hx]
    simp only [List.length_cons]
    exact ⟨by omega, fun _ => by omega⟩
  | case2 a b c rest hx ih =>
    rw [unescape, hx]
    simp only [List.length_cons] at ih ⊢
    refine ⟨by omega, fun hescaping => ?_⟩
    rcases escaping_cons.1 hescaping with ⟨b', c', rest', heq, hsome⟩ | hescaping
    · cases heq
      rw [hx] at hsome
      cases hsome
    · have hless := ih.2 hescaping
      omega
  | case3 l hshort =>
    match l with
    | [] => exact ⟨Nat.le_refl _, fun ⟨b, c, hinfix, _⟩ => absurd hinfix.length_le (by simp)⟩
    | [a] => exact ⟨Nat.le_refl _, fun ⟨b, c, hinfix, _⟩ => absurd hinfix.length_le (by simp)⟩
    | [a, b] => exact ⟨Nat.le_refl _, fun ⟨b, c, hinfix, _⟩ => absurd hinfix.length_le (by simp)⟩
    | a :: b :: c :: rest => exact (hshort a b c rest rfl).elim

/-! ## Paths -/

/-- A path ends with the last segment, or with an empty one in the place of dots. -/
theorem resolve_last (path : List Bytes) {segments : List Bytes} (h : segments ≠ []) :
    ∃ front last, resolve path segments = front ++ [last] ∧
      (last = [] ∨ last ∈ segments ∧ is_single_dot last = false ∧ is_double_dot last = false) := by
  induction segments generalizing path with
  | nil => exact absurd rfl h
  | cons segment segments ih =>
    cases segments with
    | nil =>
      simp only [resolve, add_segment, List.isEmpty_nil, if_true]
      split
      · exact ⟨_, _, rfl, .inl rfl⟩
      · split
        · exact ⟨_, _, rfl, .inl rfl⟩
        · rename_i hdouble hsingle
          exact ⟨_, _, rfl, .inr ⟨List.mem_cons_self, Bool.not_eq_true _ ▸ hsingle, Bool.not_eq_true _ ▸ hdouble⟩⟩
    | cons next segments =>
      rw [resolve]
      obtain ⟨front, last, hpath, hlast⟩ := ih (add_segment path segment false) (List.cons_ne_nil next segments)
      refine ⟨front, last, hpath, hlast.imp_right fun hmem => ⟨List.mem_cons_of_mem _ hmem.1, hmem.2⟩⟩

theorem add_literal {path : List Bytes} {segment : Bytes} (last : Bool) (h : ∀ b ∈ segment, is_literal b) :
    add_segment path segment last = path ++ [segment] := by
  have hdot : ∀ form ∈ dots, ∃ b ∈ form, ¬ is_literal b := by decide
  have hsingle : is_single_dot segment = false := by
    refine Bool.eq_false_iff.2 fun hdots => ?_
    obtain ⟨b, hb, hliteral⟩ := hdot segment (List.contains_iff_mem.1 hdots)
    exact hliteral (h b hb)
  have hdouble : is_double_dot segment = false := by
    refine Bool.eq_false_iff.2 fun hdots => ?_
    obtain ⟨form, hform, hdots⟩ := List.any_eq_true.1 hdots
    obtain ⟨form', -, heq⟩ := List.any_eq_true.1 hdots
    obtain ⟨b, hb, hliteral⟩ := hdot form hform
    rw [of_decide_eq_true heq] at h
    exact hliteral (h b (List.mem_append_left _ hb))
  simp [add_segment, hsingle, hdouble]

theorem resolve_literal {base path tail : List Bytes} (h : ∀ segment ∈ base, ∀ b ∈ segment, is_literal b) :
    resolve path (base ++ tail) = resolve (path ++ base) tail := by
  induction base generalizing path with
  | nil => rw [List.nil_append, List.append_nil]
  | cons segment base ih =>
    rw [List.cons_append, resolve, add_literal _ (h segment List.mem_cons_self),
      ih fun segment hmem => h segment (List.mem_cons_of_mem _ hmem), List.append_assoc, List.singleton_append]

/-- The separator behind a literal segment ends it, and nothing in it is dropped or escaped. -/
theorem splice_kept {base : List Bytes} (h : ∀ segment ∈ base, ∀ b ∈ segment, is_literal b) {b : UInt8}
    (hb : b ∈ splice base []) : is_control_or_space b = false ∧ is_tab_or_newline b = false ∧ ends_path b = false := by
  have hkept : ∀ b : UInt8, is_literal b ∨ b = 0x2F →
      is_control_or_space b = false ∧ is_tab_or_newline b = false ∧ ends_path b = false := by decide +kernel
  rw [splice, List.append_nil, List.mem_flatMap] at hb
  obtain ⟨segment, hsegment, hb⟩ := hb
  refine hkept b ?_
  rcases List.mem_append.1 hb with hb | hb
  · exact .inl (h segment hsegment b hb)
  · exact .inr (List.mem_singleton.1 hb)

theorem path_text_append {front text : Bytes}
    (h : ∀ b ∈ front, is_control_or_space b = false ∧ is_tab_or_newline b = false ∧ ends_path b = false) :
    path_text (front ++ text) = front ++ path_text text := by
  have hdrop : (front ++ text).rdropWhile is_control_or_space = front ++ text.rdropWhile is_control_or_space := by
    induction text using List.reverseRecOn with
    | nil =>
      rw [List.append_nil, List.rdropWhile_nil, List.append_nil, List.rdropWhile_eq_self_iff]
      exact fun hne => Bool.eq_false_iff.1 (h _ (List.getLast_mem hne)).1
    | append_singleton text b ih =>
      rw [← List.append_assoc, List.rdropWhile_concat, List.rdropWhile_concat, ih]
      split
      · rfl
      · rw [List.append_assoc]
  have hfilter : front.filter (fun b => !is_tab_or_newline b) = front :=
    List.filter_eq_self.2 fun b hb => by simp [(h b hb).2.1]
  rw [path_text, hdrop, List.filter_append, hfilter, List.takeWhile_append_of_pos fun b hb => by simp [(h b hb).2.2]]
  rfl

theorem split_splice {base : List Bytes} (h : ∀ segment ∈ base, ∀ b ∈ segment, is_literal b) (text : Bytes) :
    (splice base text).splitOnP is_separator = base ++ text.splitOnP is_separator := by
  induction base with
  | nil => rfl
  | cons segment base ih =>
    have hsegment : ∀ b ∈ segment, is_separator b = false := fun b hb =>
      (not_escaped_literal b (h segment List.mem_cons_self b hb)).2.2.1
    have hcons : splice (segment :: base) text = segment ++ 0x2F :: splice base text := by simp [splice]
    rw [hcons, List.splitOnP_append_cons_of_forall_mem hsegment 0x2F (by decide),
      ih fun segment hmem => h segment (List.mem_cons_of_mem _ hmem), List.cons_append]

theorem escape_all_literal {segment : Bytes} (h : ∀ b ∈ segment, is_literal b) : escape_all segment = segment := by
  induction segment with
  | nil => rfl
  | cons b segment ih =>
    rw [escape_all_cons, escape_of_not_escaped (not_escaped_literal b (h b List.mem_cons_self)).1,
      ih fun b hb => h b (List.mem_cons_of_mem _ hb), List.singleton_append]

/-- The base path stays what it is, unless the text resolves it away. -/
theorem parse_splice (base : BasePath) (text : Bytes) :
    parse_path (splice base.segments text) =
      resolve base.segments (((path_text text).splitOnP is_separator).map escape_all) := by
  have hsplice : ∀ text, splice base.segments text = splice base.segments [] ++ text := fun text => by simp [splice]
  have hescape : base.segments.map escape_all = base.segments :=
    (List.map_congr_left fun segment hmem => escape_all_literal (base.literal segment hmem)).trans (List.map_id _)
  rw [parse_path, hsplice, path_text_append fun b hb => splice_kept base.literal hb, ← hsplice, split_splice base.literal,
    List.map_append, hescape, resolve_literal base.literal, List.nil_append]

theorem path_text_sublist (text : Bytes) : (path_text text).Sublist text :=
  (List.takeWhile_sublist _).trans (List.filter_sublist.trans (List.rdropWhile_prefix _ _).sublist)

/-- A text of which nothing is dropped. -/
theorem path_text_eq_self {text : Bytes} : path_text text = text ↔
    (∀ b ∈ text, is_tab_or_newline b = false ∧ ends_path b = false) ∧
      ∀ b, text.getLast? = some b → is_control_or_space b = false := by
  constructor
  · intro h
    have hdrop : text.rdropWhile is_control_or_space = text := by
      refine (List.rdropWhile_prefix _ _).eq_of_length_le ?_
      have hlen : (path_text text).length ≤ (text.rdropWhile is_control_or_space).length :=
        ((List.takeWhile_sublist _).trans List.filter_sublist).length_le
      rwa [h] at hlen
    have hfilter : text.filter (fun b => !is_tab_or_newline b) = text := by
      refine List.filter_sublist.eq_of_length_le ?_
      have hlen := (List.takeWhile_sublist (l := text.filter fun b => !is_tab_or_newline b) fun b => !ends_path b).length_le
      rw [path_text, hdrop] at h
      rwa [h] at hlen
    rw [path_text, hdrop, hfilter, List.takeWhile_eq_self_iff] at h
    rw [List.filter_eq_self] at hfilter
    refine ⟨fun b hb => ⟨by simpa using hfilter b hb, by simpa using h b hb⟩, fun b hb => ?_⟩
    have hne : text ≠ [] := by
      rintro rfl
      cases hb
    rw [List.getLast?_eq_some_getLast hne] at hb
    exact Option.some.inj hb ▸ Bool.eq_false_iff.2 (List.rdropWhile_eq_self_iff.1 hdrop hne)
  · rintro ⟨hall, hlast⟩
    have hdrop : text.rdropWhile is_control_or_space = text := by
      rw [List.rdropWhile_eq_self_iff]
      exact fun hne => Bool.eq_false_iff.1 (hlast _ (List.getLast?_eq_some_getLast hne))
    have hfilter : text.filter (fun b => !is_tab_or_newline b) = text :=
      List.filter_eq_self.2 fun b hb => by simp [(hall b hb).1]
    rw [path_text, hdrop, hfilter, List.takeWhile_eq_self_iff]
    exact fun b hb => by simp [(hall b hb).2]

theorem length_le_of_mem_split {l text : Bytes} (h : l ∈ text.splitOnP is_separator) : l.length ≤ text.length := by
  induction text generalizing l with
  | nil =>
    rw [List.splitOnP_nil, List.mem_singleton] at h
    rw [h]
  | cons b text ih =>
    rw [List.splitOnP_cons_eq_if_modifyHead] at h
    obtain ⟨first, rest, hsplit⟩ := List.exists_cons_of_ne_nil (List.splitOnP_ne_nil is_separator text)
    rw [hsplit] at h ih
    split at h
    · rcases List.mem_cons.1 h with rfl | h
      · exact Nat.zero_le _
      · exact Nat.le_succ_of_le (ih h)
    · rcases List.mem_cons.1 h with rfl | h
      · exact Nat.succ_le_succ (ih List.mem_cons_self)
      · exact Nat.le_succ_of_le (ih (List.mem_cons_of_mem _ h))

/-- A part as long as the whole is the whole. -/
theorem split_of_length {l text : Bytes} (h : l ∈ text.splitOnP is_separator) (hlen : text.length ≤ l.length) :
    l = text ∧ ∀ b ∈ text, is_separator b = false := by
  have hnone : ∀ b ∈ text, is_separator b = false := by
    by_contra hcon
    simp only [not_forall] at hcon
    obtain ⟨b, hb, hsep⟩ := hcon
    obtain ⟨front, back, rfl⟩ := List.append_of_mem hb
    rw [List.splitOnP_append_cons front back (Bool.not_eq_false _ ▸ hsep)] at h
    rw [List.length_append, List.length_cons] at hlen
    rcases List.mem_append.1 h with h | h
    · have hle := length_le_of_mem_split h
      omega
    · have hle := length_le_of_mem_split h
      omega
  rw [List.splitOnP_eq_singleton hnone, List.mem_singleton] at h
  exact ⟨h, hnone⟩

/-! ## What arrives -/

theorem fromUTF8?_eq_some {l : Bytes} {text : String} : String.fromUTF8? ⟨l.toArray⟩ = some text ↔ l = bytes text := by
  unfold String.fromUTF8?
  constructor
  · intro h
    split at h
    · cases h
      rfl
    · cases h
  · rintro rfl
    have harray : (⟨(bytes text).toArray⟩ : ByteArray) = text.toByteArray := by simp [bytes]
    rw [harray, dif_pos text.isValidUTF8]
    rfl

theorem decode_eq_ok {segment : Bytes} {text : String} : decode segment = .ok text ↔ unescape segment = bytes text := by
  rw [← fromUTF8?_eq_some, decode]
  cases String.fromUTF8? ⟨(unescape segment).toArray⟩ <;> simp

theorem bound_eq_some {base path : List Bytes} {segment : Bytes} :
    bound base path = some segment ↔ path = base ++ [segment] ∧ segment ≠ [] := by
  unfold bound
  constructor
  · intro h
    split at h
    · rename_i last hlast
      split at h
      · rename_i hbase
        cases h
        rw [← hbase.1]
        exact ⟨(List.dropLast_append_getLast? _ hlast).symm, hbase.2⟩
      · cases h
    · cases h
  · rintro ⟨rfl, hne⟩
    simp [hne]

/-- Segments of dots stand for the dots. -/
theorem unescape_dots {segment : Bytes} (h : is_single_dot segment ∨ is_double_dot segment) :
    unescape segment = [0x2E] ∨ unescape segment = [0x2E, 0x2E] := by
  have hsingle : ∀ form ∈ dots, unescape form = [0x2E] := by decide
  have hdouble : ∀ form ∈ dots, ∀ form' ∈ dots, unescape (form ++ form') = [0x2E, 0x2E] := by decide
  rcases h with h | h
  · exact .inl (hsingle segment (List.contains_iff_mem.1 h))
  · obtain ⟨form, hform, h⟩ := List.any_eq_true.1 h
    obtain ⟨form', hform', h⟩ := List.any_eq_true.1 h
    rw [of_decide_eq_true h]
    exact .inr (hdouble form hform form' hform')

/-- A plain text is the segment behind the base path. -/
theorem routed_of_plain (base : BasePath) (elsewhere : List Bytes → StatusCode) {text : String}
    (h : Plain (bytes text)) : routed base elsewhere text = .ok text := by
  have hkept : path_text (bytes text) = bytes text :=
    path_text_eq_self.2 ⟨fun b hb => ⟨(h.path b hb).1, (h.path b hb).2.2⟩, h.last⟩
  have hunescape : unescape (escape_all (bytes text)) = bytes text := by
    rw [unescape_escape_all, unescape_of_not_escaping h.escapes]
  have hdots : ¬ (is_single_dot (escape_all (bytes text)) ∨ is_double_dot (escape_all (bytes text))) := by
    intro hdots
    rcases unescape_dots hdots with hdot | hdot
    · exact h.dots.1 (hunescape.symm.trans hdot)
    · exact h.dots.2 (hunescape.symm.trans hdot)
  obtain ⟨hsingle, hdouble⟩ := not_or.1 hdots
  have hpath : parse_path (splice base.segments (bytes text)) = base.segments ++ [escape_all (bytes text)] := by
    rw [parse_splice, hkept, List.splitOnP_eq_singleton fun b hb => (h.path b hb).2.1]
    simp [resolve, add_segment, hsingle, hdouble]
  have hne : escape_all (bytes text) ≠ [] := by
    intro hnil
    rw [hnil] at hunescape
    exact h.nonempty hunescape.symm
  rw [routed, hpath]
  simp only [bound_eq_some.2 ⟨rfl, hne⟩]
  exact decode_eq_ok.2 hunescape

/-- A text arrives as it is if and only if it is plain: nothing on the way makes a
text longer, so one that is dropped, split off or unescaped in part is missing. -/
theorem routed_iff (base : BasePath) (elsewhere : List Bytes → StatusCode) (text : String) :
    routed base elsewhere text = .ok text ↔ Plain (bytes text) := by
  refine ⟨fun h => ?_, routed_of_plain base elsewhere⟩
  rw [routed] at h
  split at h
  · rename_i segment hbound
    obtain ⟨hpath, hne⟩ := bound_eq_some.1 hbound
    rw [parse_splice] at hpath
    have hsegments : ((path_text (bytes text)).splitOnP is_separator).map escape_all ≠ [] := by simp
    obtain ⟨front, last, hlast, hdots⟩ := resolve_last base.segments hsegments
    rw [hlast] at hpath
    obtain rfl : last = segment := (List.append_inj' hpath rfl).2 |> List.singleton_inj.1
    obtain ⟨hmem, hsingle, hdouble⟩ := hdots.resolve_left hne
    obtain ⟨part, hpart, rfl⟩ := List.mem_map.1 hmem
    have htext : unescape part = bytes text := by rw [← unescape_escape_all, decode_eq_ok.1 h]
    -- the lengths of the text, of what is left of it, of its part and of that unescaped
    have hlen := (path_text_sublist (bytes text)).length_le
    have hlen' := length_le_of_mem_split hpart
    have hlen'' := (length_unescape part).1
    have hsame := congrArg List.length htext
    have hkept : path_text (bytes text) = bytes text := (path_text_sublist (bytes text)).eq_of_length_le (by omega)
    rw [hkept] at hpart
    obtain ⟨rfl, hsep⟩ := split_of_length hpart (by omega)
    obtain ⟨hall, hend⟩ := path_text_eq_self.1 hkept
    refine ⟨?_, fun b hb => ⟨(hall b hb).1, hsep b hb, (hall b hb).2⟩, hend, ⟨?_, ?_⟩, fun hescaping => ?_⟩
    · intro hnil
      rw [hnil] at hne
      exact hne rfl
    · intro hdot
      rw [hdot] at hsingle
      exact absurd hsingle (by decide)
    · intro hdot
      rw [hdot] at hdouble
      exact absurd hdouble (by decide)
    · have hless := (length_unescape (bytes text)).2 hescaping
      omega
  · cases h

end Url
