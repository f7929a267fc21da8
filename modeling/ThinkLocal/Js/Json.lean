import ThinkLocal.Js.Data
import ThinkLocal.Js.Decimal

/-!
# JSON texts

The values of JSON, `JSON.stringify` of them and `JSON.parse`.  A text is a list of characters, so
texts with half a surrogate pair are left out: an escape of one is read as the replacement character.
-/

namespace ThinkLocal.Js

open Data (jsonChar)

inductive Json
  | null
  | boolean (value : Bool)
  | number (value : Number)
  | string (text : String)
  | array (items : List Json)
  /-- The fields in the order of the object, no key twice. -/
  | object (fields : List (String × Json))

namespace Json

/-! ## Objects -/

/-- The number that an index of an array spells; objects have these keys first, in their order. -/
def arrayIndex (key : String) : Option Nat :=
  let digits := key.toList
  let index := Nat.ofDigitChars 10 digits 0
  if digits ≠ [] ∧ digits.all Char.isDigit ∧ (digits.head? = some '0' → digits = ['0']) ∧
      index < 2 ^ 32 - 1 then some index
  else none

/-- A new key stands before another one. -/
def precedes (key other : String) : Bool :=
  match arrayIndex key, arrayIndex other with
  | some i, some j => i < j
  | some _, none => true
  | none, _ => false

/-- Writes a field: in place, or where the order of an object puts a new key. -/
def setField (fields : List (String × Json)) (key : String) (value : Json) :
    List (String × Json) :=
  if key ∈ fields.map Prod.fst then
    fields.map fun field => if field.1 = key then (key, value) else field
  else
    let (before, after) := fields.span fun field => ! precedes key field.1
    before ++ (key, value) :: after

/-- The object that fields make, one written after the other. -/
def ofFields (fields : List (String × Json)) : List (String × Json) :=
  fields.foldl (fun fields field => setField fields field.1 field.2) []

/-- The value of a field. -/
def fieldOf (fields : List (String × Json)) (key : String) : Option Json :=
  (fields.find? fun field => field.1 = key).map Prod.snd

/-! ## Writing -/

/-- A new line with its indent, nothing in a compact text. -/
def lineBreak (gap depth : Nat) : List Char :=
  if gap = 0 then [] else '\n' :: List.replicate (gap * depth) ' '

def stringText (text : String) : List Char := '"' :: (text.toList.flatMap jsonChar ++ ['"'])

def colon (gap : Nat) : List Char := if gap = 0 then [':'] else [':', ' ']

mutual

/-- `JSON.stringify(value, null, gap)` at a depth. -/
def render (gap depth : Nat) : Json → List Char
  | null => ['n', 'u', 'l', 'l']
  | boolean true => ['t', 'r', 'u', 'e']
  | boolean false => ['f', 'a', 'l', 's', 'e']
  | number (.finite q) => (literalOf q).text
  | number _ => ['n', 'u', 'l', 'l']
  | string text => stringText text
  | array [] => ['[', ']']
  | array (item :: items) =>
      '[' :: (lineBreak gap (depth + 1) ++ (render gap (depth + 1) item ++
        renderItems gap depth items))
  | object [] => ['\x7b', '\x7d']
  | object ((key, value) :: fields) =>
      '\x7b' :: (lineBreak gap (depth + 1) ++ (stringText key ++ (colon gap ++
        (render gap (depth + 1) value ++ renderFields gap depth fields))))

/-- What follows an item of an array. -/
def renderItems (gap depth : Nat) : List Json → List Char
  | [] => lineBreak gap depth ++ [']']
  | item :: items =>
      ',' :: (lineBreak gap (depth + 1) ++ (render gap (depth + 1) item ++
        renderItems gap depth items))

/-- What follows a field of an object. -/
def renderFields (gap depth : Nat) : List (String × Json) → List Char
  | [] => lineBreak gap depth ++ ['\x7d']
  | (key, value) :: fields =>
      ',' :: (lineBreak gap (depth + 1) ++ (stringText key ++ (colon gap ++
        (render gap (depth + 1) value ++ renderFields gap depth fields))))

end

/-- `JSON.stringify(value, null, gap)`. -/
def stringify (gap : Nat) (value : Json) : String := String.ofList (render gap 0 value)

/-! ## Reading -/

/-- The white space of JSON. -/
def isBlank (c : Char) : Bool := c = ' ' || c = '\t' || c = '\n' || c = '\r'

def skipBlanks (text : List Char) : List Char := text.dropWhile isBlank

def hexValue (c : Char) : Option Nat :=
  if c.isDigit then some (c.toNat - 48)
  else if 'a' ≤ c ∧ c ≤ 'f' then some (c.toNat - 87)
  else if 'A' ≤ c ∧ c ≤ 'F' then some (c.toNat - 55)
  else none

/-- The code unit of an escape by its number. -/
def hexUnit (a b c d : Char) : Option Nat := do
  return (((← hexValue a) * 16 + (← hexValue b)) * 16 + (← hexValue c)) * 16 + (← hexValue d)

/-- The code unit of a short escape. -/
def escapedUnit : Char → Option Nat
  | '"' => some '"'.toNat
  | '\\' => some '\\'.toNat
  | '/' => some '/'.toNat
  | 'b' => some 8
  | 'f' => some 12
  | 'n' => some 10
  | 'r' => some 13
  | 't' => some 9
  | _ => none

/-- A character that stands for itself. -/
def plainUnit (c : Char) : Option Nat := if c.toNat < 32 ∨ c = '\\' then none else some c.toNat

def consUnit (unit : Option Nat) (tail : Option (List Nat × List Char)) :
    Option (List Nat × List Char) :=
  unit.bind fun unit => tail.map fun (units, rest) => (unit :: units, rest)

/-- The code units and characters of a string up to its closing quote. -/
def readUnits : List Char → Option (List Nat × List Char)
  | [] => none
  | '"' :: rest => some ([], rest)
  | '\\' :: 'u' :: a :: b :: c :: d :: rest => consUnit (hexUnit a b c d) (readUnits rest)
  | '\\' :: c :: rest => consUnit (escapedUnit c) (readUnits rest)
  | c :: rest => consUnit (plainUnit c) (readUnits rest)

def isSurrogate (unit : Nat) : Bool := 0xd800 ≤ unit ∧ unit < 0xe000

def unitChar (unit : Nat) : Char := if isSurrogate unit then '\ufffd' else Char.ofNat unit

/-- Joins surrogate pairs. -/
def decodeUnits : List Nat → List Char
  | [] => []
  | [unit] => [unitChar unit]
  | high :: low :: rest =>
      if (0xd800 ≤ high ∧ high < 0xdc00) ∧ (0xdc00 ≤ low ∧ low < 0xe000) then
        Char.ofNat (0x10000 + (high - 0xd800) * 0x400 + (low - 0xdc00)) :: decodeUnits rest
      else unitChar high :: decodeUnits (low :: rest)

/-- A string after its opening quote. -/
def readString (text : List Char) : Option (String × List Char) :=
  (readUnits text).map fun (units, rest) => (String.ofList (decodeUnits units), rest)

def isNumberChar (c : Char) : Bool :=
  c.isDigit || c = '-' || c = '+' || c = '.' || c = 'e' || c = 'E'

def readNumber (text : List Char) : Option (Number × List Char) :=
  (readLiteral (text.takeWhile isNumberChar)).map fun l =>
    (l.decimal.value, text.dropWhile isNumberChar)

mutual

def parseValue : Nat → List Char → Option (Json × List Char)
  | 0, _ => none
  | fuel + 1, text =>
      match skipBlanks text with
      | '"' :: rest => (readString rest).map fun (text, rest) => (string text, rest)
      | '[' :: rest =>
          match skipBlanks rest with
          | ']' :: rest => some (array [], rest)
          | _ =>
              (parseValue fuel rest).bind fun (item, rest) =>
                (parseItems fuel rest).map fun (items, rest) => (array (item :: items), rest)
      | '\x7b' :: rest =>
          match skipBlanks rest with
          | '\x7d' :: rest => some (object [], rest)
          | _ =>
              (parseField fuel rest).bind fun (field, rest) =>
                (parseFields fuel rest).map fun (fields, rest) =>
                  (object (ofFields (field :: fields)), rest)
      | 'n' :: 'u' :: 'l' :: 'l' :: rest => some (null, rest)
      | 't' :: 'r' :: 'u' :: 'e' :: rest => some (boolean true, rest)
      | 'f' :: 'a' :: 'l' :: 's' :: 'e' :: rest => some (boolean false, rest)
      | rest => (readNumber rest).map fun (value, rest) => (number value, rest)

/-- The items that follow one. -/
def parseItems : Nat → List Char → Option (List Json × List Char)
  | 0, _ => none
  | fuel + 1, text =>
      match skipBlanks text with
      | ']' :: rest => some ([], rest)
      | ',' :: rest =>
          (parseValue fuel rest).bind fun (item, rest) =>
            (parseItems fuel rest).map fun (items, rest) => (item :: items, rest)
      | _ => none

def parseField : Nat → List Char → Option ((String × Json) × List Char)
  | 0, _ => none
  | fuel + 1, text =>
      match skipBlanks text with
      | '"' :: rest =>
          (readString rest).bind fun (key, rest) =>
            match skipBlanks rest with
            | ':' :: rest => (parseValue fuel rest).map fun (value, rest) => ((key, value), rest)
            | _ => none
      | _ => none

/-- The fields that follow one. -/
def parseFields : Nat → List Char → Option (List (String × Json) × List Char)
  | 0, _ => none
  | fuel + 1, text =>
      match skipBlanks text with
      | '\x7d' :: rest => some ([], rest)
      | ',' :: rest =>
          (parseField fuel rest).bind fun (field, rest) =>
            (parseFields fuel rest).map fun (fields, rest) => (field :: fields, rest)
      | _ => none

end

/-- `JSON.parse(text)`, `none` where it throws. -/
def parse (text : String) : Option Json :=
  (parseValue (text.toList.length + 1) text.toList).bind fun (value, rest) =>
    if skipBlanks rest = [] then some value else none

end Json

end ThinkLocal.Js
