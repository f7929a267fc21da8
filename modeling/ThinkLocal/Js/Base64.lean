import ThinkLocal.Js.Data

/-!
# Base64

`Buffer.from(bytes).toString('base64')` and `Buffer.from(text, 'base64')`.  The decoder reads
the text up to its first sign of padding.  It takes both alphabets and skips every other
character; a single character at the end is dropped.
-/

namespace ThinkLocal.Js

def base64Alphabet : List Char :=
  "ABCDEFGHIJKLMNOPQRSTUVWXYZabcdefghijklmnopqrstuvwxyz0123456789+/".toList

/-- The character of six bits. -/
def base64Char (n : Nat) : Char := base64Alphabet.getD n '='

/-- The six bits of a character. -/
def sextet (c : Char) : Option Nat :=
  if c = '-' then some 62
  else if c = '_' then some 63
  else if c ∈ base64Alphabet then some (base64Alphabet.idxOf c)
  else none

def encodeChars : List Nat → List Char
  | [] => []
  | [a] => [base64Char (a / 4), base64Char (a % 4 * 16), '=', '=']
  | [a, b] => [base64Char (a / 4), base64Char (a % 4 * 16 + b / 16), base64Char (b % 16 * 4), '=']
  | a :: b :: c :: rest =>
      base64Char (a / 4) :: base64Char (a % 4 * 16 + b / 16) :: base64Char (b % 16 * 4 + c / 64) ::
        base64Char (c % 64) :: encodeChars rest

def decodeSextets : List Nat → List Nat
  | a :: b :: c :: d :: rest =>
      (a * 4 + b / 16) :: (b % 16 * 16 + c / 4) :: (c % 4 * 64 + d) :: decodeSextets rest
  | [a, b, c] => [a * 4 + b / 16, b % 16 * 16 + c / 4]
  | [a, b] => [a * 4 + b / 16]
  | _ => []

/-- `Buffer.from(bytes).toString('base64')`. -/
def toBase64 (bytes : Bytes) : String := String.ofList (encodeChars (bytes.map UInt8.toNat))

/-- The six bits of each character in front of the padding. -/
def sextets (text : List Char) : List Nat := (text.takeWhile (· ≠ '=')).filterMap sextet

/-- `Buffer.from(text, 'base64')`. -/
def fromBase64 (text : String) : Bytes :=
  (decodeSextets (sextets text.toList)).map UInt8.ofNat

/-! ## Decoding what was encoded -/

theorem base64Alphabet_eq : base64Alphabet =
    ['A', 'B', 'C', 'D', 'E', 'F', 'G', 'H', 'I', 'J', 'K', 'L', 'M', 'N', 'O', 'P', 'Q', 'R',
     'S', 'T', 'U', 'V', 'W', 'X', 'Y', 'Z', 'a', 'b', 'c', 'd', 'e', 'f', 'g', 'h', 'i', 'j',
     'k', 'l', 'm', 'n', 'o', 'p', 'q', 'r', 's', 't', 'u', 'v', 'w', 'x', 'y', 'z', '0', '1',
     '2', '3', '4', '5', '6', '7', '8', '9', '+', '/'] :=
  String.toList_ofList

theorem nodup_base64Alphabet : base64Alphabet.Nodup := by
  have hcodes : base64Alphabet.map Char.toNat =
      List.range' 65 26 ++ (List.range' 97 26 ++ (List.range' 48 10 ++ [43, 47])) := by
    rw [base64Alphabet_eq]
    rfl
  refine .of_map Char.toNat ?_
  rw [hcodes]
  simp only [List.nodup_append, List.mem_append, List.mem_range'_1, List.mem_pair]
  refine ⟨List.nodup_range', ⟨List.nodup_range', ⟨List.nodup_range', by decide, ?_⟩, ?_⟩, ?_⟩
  all_goals
    intro a ha b hb
    omega

/-- The characters are ASCII and not escaped in JSON; none is of the other alphabet or padding. -/
theorem plain_of_mem_base64Alphabet : ∀ c ∈ base64Alphabet,
    c ≠ '-' ∧ c ≠ '_' ∧ c ≠ '=' ∧ Data.jsonChar c = [c] ∧ c.toNat < 128 := by
  have hall : (base64Alphabet.all fun c =>
      c ≠ '-' ∧ c ≠ '_' ∧ c ≠ '=' ∧ Data.jsonChar c = [c] ∧ c.toNat < 128) = true := by
    rw [base64Alphabet_eq]
    rfl
  simpa using hall

theorem base64Char_eq {n : Nat} (h : n < base64Alphabet.length) :
    base64Char n = base64Alphabet[n] := by
  rw [base64Char, List.getD_eq_getElem?_getD, List.getElem?_eq_getElem h, Option.getD_some]

theorem base64Char_mem {n : Nat} (h : n < 64) : base64Char n ∈ base64Alphabet := by
  have hlength : n < base64Alphabet.length := by rwa [base64Alphabet_eq]
  rw [base64Char_eq hlength]
  exact List.getElem_mem hlength

theorem sextet_base64Char {n : Nat} (h : n < 64) : sextet (base64Char n) = some n := by
  have hlength : n < base64Alphabet.length := by rwa [base64Alphabet_eq]
  obtain ⟨hminus, hunderscore, -⟩ := plain_of_mem_base64Alphabet _ (base64Char_mem h)
  rw [sextet, if_neg hminus, if_neg hunderscore, if_pos (base64Char_mem h), base64Char_eq hlength,
    nodup_base64Alphabet.idxOf_getElem]

theorem base64Char_ne_padding {n : Nat} (h : n < 64) : base64Char n ≠ '=' :=
  (plain_of_mem_base64Alphabet _ (base64Char_mem h)).2.2.1

theorem sextets_base64Char {n : Nat} (h : n < 64) (rest : List Char) :
    sextets (base64Char n :: rest) = n :: sextets rest := by
  simp [sextets, base64Char_ne_padding h, sextet_base64Char h]

theorem sextets_padding (rest : List Char) : sextets ('=' :: rest) = [] := by
  simp [sextets]

theorem decodeSextets_encodeChars (bytes : List Nat) (h : ∀ b ∈ bytes, b < 256) :
    decodeSextets (sextets (encodeChars bytes)) = bytes := by
  fun_induction encodeChars bytes with
  | case1 => rfl
  -- one byte left: two letters and two signs of padding
  | case2 a =>
      have ha : a < 256 := h a (by simp)
      rw [sextets_base64Char (by omega), sextets_base64Char (by omega), sextets_padding]
      simp only [decodeSextets, List.cons.injEq, and_true]
      omega
  -- two bytes left: three letters and one sign of padding
  | case3 a b =>
      have ha : a < 256 := h a (by simp)
      have hb : b < 256 := h b (by simp)
      rw [sextets_base64Char (by omega), sextets_base64Char (by omega),
        sextets_base64Char (by omega), sextets_padding]
      simp only [decodeSextets, List.cons.injEq, and_true]
      omega
  -- a full group: four letters are three bytes again
  | case4 a b c rest ih =>
      have ha : a < 256 := h a (by simp)
      have hb : b < 256 := h b (by simp)
      have hc : c < 256 := h c (by simp)
      rw [sextets_base64Char (by omega), sextets_base64Char (by omega),
        sextets_base64Char (by omega), sextets_base64Char (by omega), decodeSextets,
        ih fun b hb => h b (by simp [hb])]
      simp only [List.cons.injEq, and_true]
      omega

theorem fromBase64_toBase64 (bytes : Bytes) : fromBase64 (toBase64 bytes) = bytes := by
  have hbytes : ∀ b ∈ bytes.map UInt8.toNat, b < 256 := by
    intro b hb
    obtain ⟨byte, -, rfl⟩ := List.mem_map.mp hb
    exact byte.toNat_lt
  rw [fromBase64, toBase64, String.toList_ofList, decodeSextets_encodeChars _ hbytes, List.map_map]
  simp [Function.comp_def]

/-! ## The size of the text -/

/-- Every group of three bytes, also the last, makes four characters. -/
theorem length_encodeChars (bytes : List Nat) :
    (encodeChars bytes).length = (bytes.length + 2) / 3 * 4 := by
  fun_induction encodeChars bytes with
  | case1 => rfl
  | case2 | case3 => simp
  | case4 a b c rest ih =>
      simp only [List.length_cons, ih]
      omega

theorem base64Char_of_le {n : Nat} (h : 64 ≤ n) : base64Char n = '=' := by
  have hlength : base64Alphabet.length ≤ n := by rwa [base64Alphabet_eq]
  rw [base64Char, List.getD_eq_getElem?_getD, List.getElem?_eq_none hlength]
  rfl

theorem base64Char_plain (n : Nat) :
    Data.jsonChar (base64Char n) = [base64Char n] ∧ (base64Char n).toNat < 128 := by
  by_cases h : n < 64
  · exact (plain_of_mem_base64Alphabet _ (base64Char_mem h)).2.2.2
  · rw [base64Char_of_le (not_lt.mp h)]
    decide

/-- Every character of an encoding is that of some bits; the padding is the one of 64. -/
theorem eq_base64Char_of_mem_encodeChars {bytes : List Nat} {c : Char}
    (h : c ∈ encodeChars bytes) : ∃ n, c = base64Char n := by
  have hpadding : '=' = base64Char 64 := (base64Char_of_le le_rfl).symm
  fun_induction encodeChars bytes with
  | case1 => cases h
  | case2 | case3 =>
      simp only [List.mem_cons, List.not_mem_nil, or_false] at h
      rcases h with rfl | rfl | rfl | rfl <;>
        first | exact ⟨_, rfl⟩ | exact ⟨_, hpadding⟩
  | case4 a b c rest ih =>
      simp only [List.mem_cons] at h
      rcases h with rfl | rfl | rfl | rfl | hrest
      · exact ⟨_, rfl⟩
      · exact ⟨_, rfl⟩
      · exact ⟨_, rfl⟩
      · exact ⟨_, rfl⟩
      · exact ih hrest

theorem plain_of_mem_toBase64 {bytes : Bytes} {c : Char} (h : c ∈ (toBase64 bytes).toList) :
    Data.jsonChar c = [c] ∧ c.toNat < 128 := by
  rw [toBase64, String.toList_ofList] at h
  obtain ⟨n, rfl⟩ := eq_base64Char_of_mem_encodeChars h
  exact base64Char_plain n

theorem length_toBase64 (bytes : Bytes) :
    (toBase64 bytes).toList.length = (bytes.length + 2) / 3 * 4 := by
  rw [toBase64, String.toList_ofList, length_encodeChars, List.length_map]

end ThinkLocal.Js
