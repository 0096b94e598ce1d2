import OCF.Foundations.Utf8
import Mathlib.Algebra.Order.BigOperators.Group.List
import Mathlib.Data.Nat.Digits.Defs

/-!
# JSON values, texts and their sizes

A JSON value as a program has it, and the compact JSON that `serde_json` writes, as bytes: numbers,
strings with its escapes, arrays and objects. A byte vector is an array of numbers. Each writer comes
with the size of what it writes, so that the size of a text follows from the data: `length_array` and
`length_object` reduce it to the sizes of the parts.
-/

namespace OCF

/-! ## Values -/

/-- A JSON value as a program has it (`serde_json::Value`). -/
inductive JsonValue
  | null
  | bool (b : Bool)
  | number (text : String)
  | string (s : String)
  | array (items : List JsonValue)
  | object (fields : List (String × JsonValue))

namespace JsonValue

/-- The member of an object. -/
def get (key : String) : JsonValue → Option JsonValue
  | object fields => fields.lookup key
  | _ => none

/-- The items of an array. -/
def asArray : JsonValue → Option (List JsonValue)
  | array items => some items
  | _ => none

/-- The characters of a string. -/
def asStr : JsonValue → Option String
  | string s => some s
  | _ => none

end JsonValue

/-! ## Texts -/

namespace Json

/-- A number in decimal. -/
def nat (n : ℕ) : List UInt8 := (Nat.toDigits 10 n).map fun c => UInt8.ofNat c.toNat

/-- A boolean. -/
def bool (b : Bool) : List UInt8 := utf8 (if b then "true" else "false")

/-- The null value. -/
def null : List UInt8 := utf8 "null"

/-- An optional value; nothing is `null`. -/
def option {α : Type*} (write : α → List UInt8) : Option α → List UInt8
  | none => null
  | some a => write a

/-- A digit below 16, as a byte. -/
def digit (n : ℕ) : UInt8 := UInt8.ofNat (Nat.digitChar n).toNat

/-- The control characters with a short escape, and the letter of it. -/
def shortEscape (c : Char) : Option Char :=
  if c = '"' then some '"'
  else if c = '\\' then some '\\'
  else if c.toNat = 0x8 then some 'b'
  else if c = '\t' then some 't'
  else if c = '\n' then some 'n'
  else if c.toNat = 0xC then some 'f'
  else if c = '\r' then some 'r'
  else none

/-- A character inside a string: other control characters by their code, the rest as it is. -/
def escape (c : Char) : List UInt8 :=
  match shortEscape c with
  | some letter => utf8 "\\" ++ [UInt8.ofNat letter.toNat]
  | none =>
    if c.toNat < 0x20 then utf8 "\\u00" ++ [digit (c.toNat / 16), digit (c.toNat % 16)]
    else String.utf8EncodeChar c

/-- A string, between quotes. -/
def string (s : String) : List UInt8 := utf8 "\"" ++ s.toList.flatMap escape ++ utf8 "\""

/-- The parts, separated by commas. -/
def commas (parts : List (List UInt8)) : List UInt8 := (utf8 ",").intercalate parts

/-- An array of texts. -/
def array (items : List (List UInt8)) : List UInt8 := utf8 "[" ++ commas items ++ utf8 "]"

/-- A key with the text of its value. -/
def field (f : String × List UInt8) : List UInt8 := string f.1 ++ utf8 ":" ++ f.2

/-- An object with the texts of its values. -/
def object (fields : List (String × List UInt8)) : List UInt8 :=
  utf8 "\x7b" ++ commas (fields.map field) ++ utf8 "\x7d"

/-- A byte vector is an array of numbers. -/
def byteArray (bytes : List UInt8) : List UInt8 := array (bytes.map fun b => nat b.toNat)

/-! ## Sizes -/

/-- The length of a number. -/
def natSize (n : ℕ) : ℕ := (Nat.toDigits 10 n).length

/-- The length of a boolean. -/
def boolSize (b : Bool) : ℕ := if b then 4 else 5

/-- The length of a value that may be missing. -/
def optionSize {α : Type*} (size : α → ℕ) : Option α → ℕ
  | none => 4
  | some a => size a

/-- The length of a character in a string. -/
def escapeSize (c : Char) : ℕ :=
  if (shortEscape c).isSome then 2 else if c.toNat < 0x20 then 6 else c.utf8Size

/-- The length of a string with its quotes. -/
def stringSize (s : String) : ℕ := 2 + (s.toList.map escapeSize).sum

/-- Parts of the given sizes between brackets, with a comma between any two. -/
def arraySize (sizes : List ℕ) : ℕ := 2 + sizes.sum + (sizes.length - 1)

/-- The length of an object, from the lengths of its values. -/
def objectSize (fields : List (String × ℕ)) : ℕ :=
  arraySize (fields.map fun f => stringSize f.1 + 1 + f.2)

/-- The length of an array of bytes. -/
def byteArraySize (bytes : List UInt8) : ℕ := arraySize (bytes.map fun b => natSize b.toNat)

@[simp] theorem length_nat (n : ℕ) : (nat n).length = natSize n := List.length_map _

@[simp] theorem length_bool (b : Bool) : (bool b).length = boolSize b := by
  cases b with
  | false => rfl
  | true => rfl

theorem length_option {α : Type*} {write : α → List UInt8} {size : α → ℕ}
    (h : ∀ a, (write a).length = size a) (o : Option α) :
    (option write o).length = optionSize size o := by
  cases o with
  | none => rfl
  | some a => exact h a

theorem length_escape (c : Char) : (escape c).length = escapeSize c := by
  unfold escape escapeSize
  cases shortEscape c with
  | some letter => rfl
  | none =>
    simp only [Option.isSome_none, Bool.false_eq_true, if_false]
    split_ifs
    · rfl
    · exact String.length_utf8EncodeChar c

@[simp] theorem length_string (s : String) : (string s).length = stringSize s := by
  have hbody : (s.toList.flatMap escape).length = (s.toList.map escapeSize).sum := by
    rw [List.length_flatMap]
    exact congrArg List.sum (List.map_congr_left fun c _ => length_escape c)
  have hquote : (utf8 "\"").length = 1 := rfl
  rw [string, List.length_append, List.length_append, hbody, hquote, stringSize]
  omega

theorem length_commas (parts : List (List UInt8)) :
    (commas parts).length = (parts.map List.length).sum + (parts.length - 1) := by
  have hcomma : (utf8 ",").length = 1 := rfl
  induction parts with
  | nil => rfl
  | cons p parts ih =>
    cases parts with
    | nil => simp [commas]
    | cons q parts =>
      rw [commas, List.intercalate_cons_cons, List.length_append, List.length_append, hcomma]
      change _ + 1 + (commas (q :: parts)).length = _
      rw [ih]
      simp only [List.map_cons, List.sum_cons, List.length_cons]
      omega

@[simp] theorem length_array (items : List (List UInt8)) :
    (array items).length = arraySize (items.map List.length) := by
  have hopen : (utf8 "[").length = 1 := rfl
  have hclose : (utf8 "]").length = 1 := rfl
  rw [array, List.length_append, List.length_append, hopen, hclose, length_commas, arraySize,
    List.length_map]
  omega

@[simp] theorem length_field (f : String × List UInt8) :
    (field f).length = stringSize f.1 + 1 + f.2.length := by
  have hcolon : (utf8 ":").length = 1 := rfl
  rw [field, List.length_append, List.length_append, length_string, hcolon]

@[simp] theorem length_object (fields : List (String × List UInt8)) :
    (object fields).length = objectSize (fields.map fun f => (f.1, f.2.length)) := by
  have hopen : (utf8 "\x7b").length = 1 := rfl
  have hclose : (utf8 "\x7d").length = 1 := rfl
  have hsizes : (fields.map field).map List.length =
      (fields.map fun f => (f.1, f.2.length)).map fun f => stringSize f.1 + 1 + f.2 := by
    rw [List.map_map, List.map_map]
    exact List.map_congr_left fun f _ => length_field f
  rw [object, List.length_append, List.length_append, hopen, hclose, length_commas, hsizes,
    objectSize, arraySize, List.length_map, List.length_map, List.length_map]
  omega

@[simp] theorem length_byteArray (bytes : List UInt8) :
    (byteArray bytes).length = byteArraySize bytes := by
  rw [byteArray, length_array, List.map_map, byteArraySize]
  exact congrArg arraySize (List.map_congr_left fun b _ => length_nat b.toNat)

theorem objectSize_singleton (f : String × ℕ) : objectSize [f] = stringSize f.1 + f.2 + 3 := by
  simp only [objectSize, arraySize, List.map_cons, List.map_nil, List.sum_cons, List.sum_nil,
    List.length_cons, List.length_nil]
  omega

theorem objectSize_cons_cons (f g : String × ℕ) (fields : List (String × ℕ)) :
    objectSize (f :: g :: fields) = stringSize f.1 + f.2 + 2 + objectSize (g :: fields) := by
  simp only [objectSize, arraySize, List.map_cons, List.sum_cons, List.length_cons]
  omega

theorem boolSize_le (b : Bool) : boolSize b ≤ 5 := by
  cases b with
  | false => exact le_rfl
  | true => exact Nat.le_succ 4

theorem natSize_pos (n : ℕ) : 1 ≤ natSize n :=
  List.length_pos_iff.2 Nat.toDigits_ne_nil

/-- A 64-bit number has at most 20 digits. -/
theorem natSize_le_of_lt {n : ℕ} (h : n < 2 ^ 64) : natSize n ≤ 20 :=
  Nat.toDigits_length 10 n 20 (by omega) (by omega)

/-- Each byte takes a digit at least, and a comma or a bracket. -/
theorem two_mul_length_lt_byteArraySize (bytes : List UInt8) :
    2 * bytes.length < byteArraySize bytes := by
  have hsum : bytes.length ≤ (bytes.map fun b => natSize b.toNat).sum := by
    induction bytes with
    | nil => exact le_rfl
    | cons b bytes ih =>
      have hb := natSize_pos b.toNat
      rw [List.length_cons, List.map_cons, List.sum_cons]
      omega
  rw [byteArraySize, arraySize, List.length_map]
  omega

theorem le_arraySize {sizes : List ℕ} {n : ℕ} (h : n ∈ sizes) : n ≤ arraySize sizes := by
  have hn := List.le_sum_of_mem h
  rw [arraySize]
  omega

theorem sum_le_arraySize (sizes : List ℕ) : sizes.sum ≤ arraySize sizes := by
  rw [arraySize]
  omega

theorem le_objectSize {fields : List (String × ℕ)} (name : String) {n : ℕ}
    (h : (name, n) ∈ fields) : n ≤ objectSize fields := by
  have hmem : stringSize name + 1 + n ∈ fields.map fun f => stringSize f.1 + 1 + f.2 :=
    List.mem_map.2 ⟨(name, n), h, rfl⟩
  calc n ≤ stringSize name + 1 + n := Nat.le_add_left ..
    _ ≤ objectSize fields := le_arraySize hmem

end Json

end OCF
