import ThinkLocal.Js.Utf8

/-!
# Components of a URL

`encodeURIComponent` and `decodeURIComponent`, and what the parser of a URL makes of the segments
of a path: it drops a segment `.`, and a segment `..` takes the one before it along.
-/

namespace ThinkLocal.Js

/-! ## Percent encoding -/

/-- The characters that `encodeURIComponent` leaves as they are. -/
def isUnescaped (c : Char) : Bool :=
  c.isAlphanum || c ∈ "-_.!~*'()".toList

def percentDigits : List Char :=
  ['0', '1', '2', '3', '4', '5', '6', '7', '8', '9', 'A', 'B', 'C', 'D', 'E', 'F']

def percentDigit (n : Nat) : Char := percentDigits.getD n '0'

/-- `%XX`. -/
def percentByte (byte : UInt8) : List Char :=
  ['%', percentDigit (byte.toNat / 16), percentDigit (byte.toNat % 16)]

def encodeUriChar (c : Char) : List Char :=
  if isUnescaped c then [c] else (String.utf8EncodeChar c).flatMap percentByte

def encodeURIComponent (text : String) : String := String.ofList (text.toList.flatMap encodeUriChar)

/-- The value of a hexadecimal digit of either case. -/
def percentDigitValue (c : Char) : Option Nat :=
  percentDigits.idxOf? c.toUpper

/-- The bytes of a text with its escapes replaced; `none` for a malformed escape. -/
def unescapeBytes : List Char → Option Bytes
  | [] => some []
  | '%' :: high :: low :: rest =>
      (percentDigitValue high).bind fun h =>
        (percentDigitValue low).bind fun l =>
          (unescapeBytes rest).map (UInt8.ofNat (16 * h + l) :: ·)
  | c :: rest => if c = '%' then none else (unescapeBytes rest).map (String.utf8EncodeChar c ++ ·)

/-- `none` is a `URIError`: an escape is malformed, or the bytes are not UTF-8. -/
def decodeURIComponent (text : String) : Option String :=
  (unescapeBytes text.toList).bind fun bytes =>
    let decoded := decodeUtf8 bytes
    if encodeUtf8 decoded = bytes then some (String.ofList decoded) else none

theorem percentDigitValue_percentDigit {n : Nat} (hn : n < 16) :
    percentDigitValue (percentDigit n) = some n := by
  have hall : ∀ n < 16, percentDigitValue (percentDigit n) = some n := by decide
  exact hall n hn

theorem unescapeBytes_percentByte (byte : UInt8) (rest : List Char) :
    unescapeBytes (percentByte byte ++ rest) = (unescapeBytes rest).map (byte :: ·) := by
  have hbyte : byte.toNat < 256 := byte.toNat_lt
  have hvalue : UInt8.ofNat (16 * (byte.toNat / 16) + byte.toNat % 16) = byte := by
    rw [Nat.div_add_mod, UInt8.ofNat_toNat]
  calc unescapeBytes (percentByte byte ++ rest)
      = (percentDigitValue (percentDigit (byte.toNat / 16))).bind fun h =>
          (percentDigitValue (percentDigit (byte.toNat % 16))).bind fun l =>
            (unescapeBytes rest).map (UInt8.ofNat (16 * h + l) :: ·) := rfl
    _ = (unescapeBytes rest).map (byte :: ·) := by
        rw [percentDigitValue_percentDigit (by omega), percentDigitValue_percentDigit (by omega),
          Option.bind_some, Option.bind_some, hvalue]

theorem unescapeBytes_flatMap_percentByte (bytes : Bytes) (rest : List Char) :
    unescapeBytes (bytes.flatMap percentByte ++ rest) = (unescapeBytes rest).map (bytes ++ ·) := by
  induction bytes with
  | nil => simp
  | cons byte bytes ih =>
      rw [List.flatMap_cons, List.append_assoc, unescapeBytes_percentByte, ih, Option.map_map]
      rfl

theorem unescapeBytes_of_ne {c : Char} (hc : c ≠ '%') (rest : List Char) :
    unescapeBytes (c :: rest) = (unescapeBytes rest).map (String.utf8EncodeChar c ++ ·) := by
  rw [unescapeBytes, if_neg hc]
  intro high low tail h
  exact absurd h hc

theorem unescapeBytes_encodeUriChar (c : Char) (rest : List Char) :
    unescapeBytes (encodeUriChar c ++ rest) =
      (unescapeBytes rest).map (String.utf8EncodeChar c ++ ·) := by
  unfold encodeUriChar
  split
  · rename_i hc
    have hpercent : c ≠ '%' := by
      rintro rfl
      exact absurd hc (by decide)
    exact unescapeBytes_of_ne hpercent rest
  · exact unescapeBytes_flatMap_percentByte _ rest

theorem unescapeBytes_encode (text : List Char) :
    unescapeBytes (text.flatMap encodeUriChar) = some (encodeUtf8 text) := by
  induction text with
  | nil => rfl
  | cons c text ih =>
      rw [List.flatMap_cons, unescapeBytes_encodeUriChar, ih]
      rfl

/-- What is encoded is decoded to the same text. -/
theorem decodeURIComponent_encodeURIComponent (text : String) :
    decodeURIComponent (encodeURIComponent text) = some text := by
  rw [decodeURIComponent, encodeURIComponent, String.toList_ofList, unescapeBytes_encode,
    Option.bind_some, decodeUtf8_encodeUtf8, if_pos rfl, String.ofList_toList]

/-- The characters that a parser of a URL leaves as they are in a path: those of an encoded
component. -/
def isComponentChar (c : Char) : Bool := isUnescaped c || c = '%'

theorem isComponentChar_percentByte {byte : UInt8} {c : Char} (hc : c ∈ percentByte byte) :
    isComponentChar c = true := by
  have hdigit : ∀ n < 16, isComponentChar (percentDigit n) = true := by decide
  have hbyte : byte.toNat < 256 := byte.toNat_lt
  simp only [percentByte, List.mem_cons, List.not_mem_nil, or_false] at hc
  rcases hc with rfl | rfl | rfl
  · decide
  · exact hdigit _ (by omega)
  · exact hdigit _ (by omega)

theorem isComponentChar_encodeURIComponent {text : String} {c : Char}
    (hc : c ∈ (encodeURIComponent text).toList) : isComponentChar c = true := by
  rw [encodeURIComponent, String.toList_ofList] at hc
  obtain ⟨d, -, hc⟩ := List.mem_flatMap.mp hc
  unfold encodeUriChar at hc
  split at hc
  · rename_i hd
    obtain rfl := List.mem_singleton.mp hc
    rw [isComponentChar, hd, Bool.true_or]
  · obtain ⟨byte, -, hc⟩ := List.mem_flatMap.mp hc
    exact isComponentChar_percentByte hc

/-! ## Dot segments -/

def singleDotSegments : List String := [".", "%2e", "%2E"]

def doubleDotSegments : List String :=
  ["..", ".%2e", ".%2E", "%2e.", "%2E.", "%2e%2e", "%2e%2E", "%2E%2e", "%2E%2E"]

/-- The path to which the segments after each `/` are parsed, after a path so far. -/
def pathFrom (path : List String) : List String → List String
  | [] => path
  | [segment] =>
      if segment ∈ doubleDotSegments then path.dropLast ++ [""]
      else if segment ∈ singleDotSegments then path ++ [""]
      else path ++ [segment]
  | segment :: next :: rest =>
      if segment ∈ doubleDotSegments then pathFrom path.dropLast (next :: rest)
      else if segment ∈ singleDotSegments then pathFrom path (next :: rest)
      else pathFrom (path ++ [segment]) (next :: rest)

/-- The segments that a path drops are texts `.` and `..`, however they are escaped. -/
theorem decode_dotSegment {segment : String}
    (h : segment ∈ singleDotSegments ∨ segment ∈ doubleDotSegments) :
    decodeURIComponent segment = some "." ∨ decodeURIComponent segment = some ".." := by
  have hsingle : ∀ segment ∈ singleDotSegments, decodeURIComponent segment = some "." := by
    decide +kernel
  have hdouble : ∀ segment ∈ doubleDotSegments, decodeURIComponent segment = some ".." := by
    decide +kernel
  rcases h with h | h
  · exact .inl (hsingle segment h)
  · exact .inr (hdouble segment h)

/-- An encoded component is a segment that a path keeps, unless it is `.` or `..`. -/
theorem encode_notMem_dotSegments {text : String} (hdot : text ≠ ".") (hdots : text ≠ "..") :
    encodeURIComponent text ∉ singleDotSegments ∧ encodeURIComponent text ∉ doubleDotSegments := by
  rw [← not_or]
  intro h
  rcases decode_dotSegment h with h | h
  · rw [decodeURIComponent_encodeURIComponent] at h
    exact hdot (Option.some.inj h)
  · rw [decodeURIComponent_encodeURIComponent] at h
    exact hdots (Option.some.inj h)

end ThinkLocal.Js
