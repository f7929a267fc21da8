import Mathlib.Data.String.Basic
import Mathlib.Tactic

/-!
# Decoded data

The values that decoding a CBOR or JSON text can give, and what JavaScript does with them
without knowing their type: reading a field, taking the length and `JSON.stringify`.
Decoded objects inherit nothing that the program reads.
-/

namespace ThinkLocal.Js

abbrev Bytes := List UInt8

inductive Data
  | undefined
  | null
  | boolean (value : Bool)
  /-- A number with its text `String(n)`. -/
  | number (text : String)
  | bigint (value : Int)
  | string (text : String)
  /-- A `Buffer`. -/
  | bytes (content : Bytes)
  | array (items : List Data)
  | object (fields : List (String × Data))
  /-- An object of another class or with a cycle: its fields and its JSON text, `none` where
  `JSON.stringify` throws. -/
  | exotic (fields : List (String × Data)) (json : Option String)

namespace Data

/-! ## Fields -/

def field : List (String × Data) → String → Data
  | [], _ => undefined
  | (k, v) :: rest, key => if k = key then v else field rest key

/-- `value.key`; `none` where it throws. -/
def get : Data → String → Option Data
  | undefined, _ | null, _ => none
  | object fields, key | exotic fields _, key => some (field fields key)
  | _, _ => some undefined

/-- The text of a string. -/
def text? : Data → Option String
  | string text => some text
  | _ => none

theorem text?_eq_some {value : Data} {text : String} :
    value.text? = some text ↔ value = string text := by
  cases value <;> simp [text?]

/-- `!!value`. -/
def truthy : Data → Bool
  | undefined | null => false
  | boolean value => value
  | number text => text ≠ "0" ∧ text ≠ "NaN"
  | bigint value => value ≠ 0
  | string text => text ≠ ""
  | bytes _ | array _ | object _ | exotic _ _ => true

/-- `value === undefined || value === null`. -/
def isNullish : Data → Bool
  | undefined | null => true
  | _ => false

/-! ## Lengths -/

/-- `text.length`, in UTF-16 code units. -/
def utf16Length (text : String) : Nat := (text.toList.map fun c => if c.toNat < 65536 then 1 else 2).sum

theorem utf8ByteSize_of_ascii {chars : List Char} (h : ∀ c ∈ chars, c.toNat < 128) :
    (String.ofList chars).utf8ByteSize = chars.length := by
  rw [String.utf8ByteSize_ofList]
  induction chars with
  | nil => rfl
  | cons c rest ih =>
      have hone : c.utf8Size = 1 :=
        Char.utf8Size_eq_one_iff.mpr (Nat.le_of_lt_succ (h c List.mem_cons_self))
      rw [String.utf8Len_cons, hone, ih fun c hc => h c (List.mem_cons_of_mem _ hc)]
      rfl

/-- `value.length > bound` for a value that is not null; `greater` is the comparison with a field
of an object, `none` where it throws. -/
def lengthExceeds (greater : Data → Nat → Option Bool) (value : Data) (bound : Nat) :
    Option Bool :=
  match value with
  | string text => some (bound < utf16Length text)
  | bytes content => some (bound < content.length)
  | array items => some (bound < items.length)
  | object fields | exotic fields _ => greater (field fields "length") bound
  | _ => some false

/-! ## JSON -/

def hexDigit (n : Nat) : Char := if n < 10 then Char.ofNat (48 + n) else Char.ofNat (87 + n)

/-- A character in a JSON string. -/
def jsonChar (c : Char) : List Char :=
  if c = '"' then ['\\', '"']
  else if c = '\\' then ['\\', '\\']
  else if c.toNat = 8 then ['\\', 'b']
  else if c.toNat = 9 then ['\\', 't']
  else if c.toNat = 10 then ['\\', 'n']
  else if c.toNat = 12 then ['\\', 'f']
  else if c.toNat = 13 then ['\\', 'r']
  else if c.toNat < 32 then ['\\', 'u', '0', '0', hexDigit (c.toNat / 16), hexDigit (c.toNat % 16)]
  else [c]

def jsonString (text : String) : String :=
  "\"" ++ String.ofList (text.toList.flatMap jsonChar) ++ "\""

/-- Characters that are not escaped stay as they are. -/
theorem flatMap_jsonChar {chars : List Char} (h : ∀ c ∈ chars, jsonChar c = [c]) :
    chars.flatMap jsonChar = chars := by
  induction chars with
  | nil => rfl
  | cons c rest ih =>
      rw [List.flatMap_cons, h c List.mem_cons_self, ih fun c hc => h c (List.mem_cons_of_mem _ hc)]
      rfl

/-- A text without escapes has a byte for each character, and the quotes. -/
theorem utf8ByteSize_jsonString {text : String}
    (h : ∀ c ∈ text.toList, jsonChar c = [c] ∧ c.toNat < 128) :
    (jsonString text).utf8ByteSize = text.toList.length + 2 := by
  have hquote : ("\"" : String).utf8ByteSize = 1 := by decide
  rw [jsonString, flatMap_jsonChar fun c hc => (h c hc).1, String.utf8ByteSize_append,
    String.utf8ByteSize_append, hquote, utf8ByteSize_of_ascii fun c hc => (h c hc).2]
  omega

def jsonNumber (text : String) : String :=
  if text = "NaN" ∨ text = "Infinity" ∨ text = "-Infinity" then "null" else text

def jsonArray (items : List String) : String := "[" ++ ",".intercalate items ++ "]"

def jsonObject (fields : List (String × String)) : String :=
  "\x7b" ++ ",".intercalate (fields.map fun p => jsonString p.1 ++ ":" ++ p.2) ++ "\x7d"

mutual

/-- `JSON.stringify(value)`: `none` where it throws, `some none` for `undefined`. -/
def stringify : Data → Option (Option String)
  | undefined => some none
  | null => some (some "null")
  | boolean value => some (some (if value then "true" else "false"))
  | number text => some (some (jsonNumber text))
  | bigint _ => none
  | string text => some (some (jsonString text))
  | bytes content =>
      some <| some <| jsonObject [("type", jsonString "Buffer"),
        ("data", jsonArray (content.map fun b => toString b.toNat))]
  | array items => (stringifyItems items).map fun texts => some (jsonArray texts)
  | object fields => (stringifyFields fields).map fun texts => some (jsonObject texts)
  | exotic _ json => json.map some

/-- An `undefined` item becomes `null`. -/
def stringifyItems : List Data → Option (List String)
  | [] => some []
  | item :: rest =>
      (stringify item).bind fun text =>
        (stringifyItems rest).map fun texts => text.getD "null" :: texts

/-- An `undefined` field is left out. -/
def stringifyFields : List (String × Data) → Option (List (String × String))
  | [] => some []
  | (key, value) :: rest =>
      (stringify value).bind fun text =>
        (stringifyFields rest).map fun texts =>
          match text with
          | some text => (key, text) :: texts
          | none => texts

end

/-- Undefined values, nested objects and escapes. -/
example : (object [("a", array [undefined, number "1"]), ("b", undefined),
    ("c", string "x\"y")]).stringify = some (some "\x7b\"a\":[null,1],\"c\":\"x\\\"y\"\x7d") := by
  decide

end Data

end ThinkLocal.Js
