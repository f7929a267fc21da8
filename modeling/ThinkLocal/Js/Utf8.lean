import ThinkLocal.Foundation.Segments
import ThinkLocal.Js.Data

/-!
# UTF-8

`buffer.toString('utf8')` and `Buffer.byteLength`.  What is no character becomes U+FFFD: a byte
that cannot begin a character, or the bytes of one that has been begun and does not go on.
-/

namespace ThinkLocal.Js

section

open Foundation

def replacementCharacter : Char := '\ufffd'

/-- A character that has been begun: the bytes that it still needs, its bits so far and the bounds
of the next byte.  A character of several bytes is none that has a byte of its own. -/
structure BegunChar where
  needed : Nat
  bits : Nat
  lower : Nat
  upper : Nat
  high : 128 ≤ lower
  large : 11 ≤ bits * 64 + (lower - 128)

/-- A byte outside of a character. -/
def beginChar (b : Nat) : List Char × Option BegunChar :=
  if b < 0x80 then ([Char.ofNat b], none)
  else if h : 0xC2 ≤ b ∧ b ≤ 0xDF then ([], some ⟨1, b - 0xC0, 0x80, 0xBF, by omega, by omega⟩)
  else if b = 0xE0 then ([], some ⟨2, 0, 0xA0, 0xBF, by omega, by omega⟩)
  else if b = 0xED then ([], some ⟨2, 0xD, 0x80, 0x9F, by omega, by omega⟩)
  else if h : 0xE1 ≤ b ∧ b ≤ 0xEF then ([], some ⟨2, b - 0xE0, 0x80, 0xBF, by omega, by omega⟩)
  else if b = 0xF0 then ([], some ⟨3, 0, 0x90, 0xBF, by omega, by omega⟩)
  else if b = 0xF4 then ([], some ⟨3, 4, 0x80, 0x8F, by omega, by omega⟩)
  else if h : 0xF1 ≤ b ∧ b ≤ 0xF3 then ([], some ⟨3, b - 0xF0, 0x80, 0xBF, by omega, by omega⟩)
  else ([replacementCharacter], none)

/-- The next byte of a character. -/
def continueChar (begun : BegunChar) (b : Nat) : List Char × Option BegunChar :=
  if h : begun.lower ≤ b ∧ b ≤ begun.upper then
    let bits := begun.bits * 64 + (b - 128)
    if begun.needed = 1 then ([Char.ofNat bits], none)
    else
      ([], some ⟨begun.needed - 1, bits, 0x80, 0xBF, by omega, by
        have hlarge := begun.large
        omega⟩)
  else (replacementCharacter :: (beginChar b).1, (beginChar b).2)

def decodeByte (begun : Option BegunChar) (b : Nat) : List Char × Option BegunChar :=
  match begun with
  | none => beginChar b
  | some begun => continueChar begun b

def decodeFrom : Option BegunChar → Bytes → List Char
  | none, [] => []
  | some _, [] => [replacementCharacter]
  | begun, b :: rest =>
      (decodeByte begun b.toNat).1 ++ decodeFrom (decodeByte begun b.toNat).2 rest

/-- `bytes.toString('utf8')`. -/
def decodeUtf8 (bytes : Bytes) : List Char := decodeFrom none bytes

/-- `Buffer.byteLength(text, 'utf8')`. -/
def byteLength (text : List Char) : Nat := (text.map Char.utf8Size).sum

/-- Characters of one to four bytes, and bytes that are none. -/
example : decodeUtf8 [0x61, 0xC3, 0xA4, 0xE2, 0x82, 0xAC, 0xF0, 0x9F, 0x98, 0x80, 0xC3, 0x28,
    0xED, 0xA0, 0x80] = "aä€😀\ufffd(\ufffd\ufffd\ufffd".toList := by decide

/-! ## Newlines -/

theorem decodeFrom_cons (begun : Option BegunChar) (b : UInt8) (rest : Bytes) :
    decodeFrom begun (b :: rest) =
      (decodeByte begun b.toNat).1 ++ decodeFrom (decodeByte begun b.toNat).2 rest := by
  cases begun <;> rfl

/-- The byte of a newline is no part of another character. -/
theorem decodeFrom_append (begun : Option BegunChar) (bytes rest : Bytes) :
    decodeFrom begun (bytes ++ 10 :: rest) = decodeFrom begun bytes ++ '\n' :: decodeUtf8 rest := by
  have hnewline : beginChar 10 = (['\n'], none) := by rfl
  have hten : (10 : UInt8).toNat = 10 := rfl
  induction bytes generalizing begun with
  | nil =>
      rw [List.nil_append, decodeFrom_cons, hten]
      cases begun with
      | none =>
          rw [decodeByte, hnewline]
          rfl
      | some begun =>
          have hout : ¬ (begun.lower ≤ 10 ∧ 10 ≤ begun.upper) := by
            have hhigh := begun.high
            omega
          rw [decodeByte, continueChar, dif_neg hout, hnewline]
          rfl
  | cons b bytes ih => rw [List.cons_append, decodeFrom_cons, ih, decodeFrom_cons, List.append_assoc]

theorem decodeUtf8_append (bytes rest : Bytes) :
    decodeUtf8 (bytes ++ 10 :: rest) = decodeUtf8 bytes ++ '\n' :: decodeUtf8 rest :=
  decodeFrom_append none bytes rest

theorem eq_of_ofNat_eq_newline {n : Nat} (h : Char.ofNat n = '\n') : n = 10 := by
  by_cases hvalid : n.isValidChar
  · rw [Char.ofNat, dif_pos hvalid] at h
    have hval : (Char.ofNatAux n hvalid).toNat = 10 := by
      rw [h]
      rfl
    exact hval
  · rw [Char.ofNat, dif_neg hvalid] at h
    exact absurd h (by decide)

/-- Only the byte of a newline is a newline. -/
theorem newline_notMem_beginChar {b : Nat} (h : b ≠ 10) : '\n' ∉ (beginChar b).1 := by
  have hreplacement : '\n' ≠ replacementCharacter := by decide
  unfold beginChar
  split_ifs
  case pos =>
    rw [List.mem_singleton]
    exact fun hnewline => h (eq_of_ofNat_eq_newline hnewline.symm)
  all_goals simp [hreplacement]

theorem newline_notMem_continueChar {begun : BegunChar} {b : Nat} (h : b ≠ 10) :
    '\n' ∉ (continueChar begun b).1 := by
  have hreplacement : '\n' ≠ replacementCharacter := by decide
  unfold continueChar
  split
  case isTrue hbounds =>
    dsimp only
    split
    case isTrue =>
      rw [List.mem_singleton]
      intro hnewline
      have hten := eq_of_ofNat_eq_newline hnewline.symm
      have hlarge := begun.large
      omega
    case isFalse => exact List.not_mem_nil
  case isFalse =>
    rw [List.mem_cons, not_or]
    exact ⟨hreplacement, newline_notMem_beginChar h⟩

theorem newline_notMem_decodeFrom {begun : Option BegunChar} {bytes : Bytes} (h : 10 ∉ bytes) :
    '\n' ∉ decodeFrom begun bytes := by
  induction bytes generalizing begun with
  | nil =>
      cases begun with
      | none => exact List.not_mem_nil
      | some begun =>
          rw [decodeFrom, List.mem_singleton]
          decide
  | cons b bytes ih =>
      rw [List.mem_cons, not_or] at h
      have hb : b.toNat ≠ 10 := fun hten => h.1 (UInt8.toNat_inj.mp hten.symm)
      rw [decodeFrom_cons, List.mem_append, not_or]
      refine ⟨?_, ih h.2⟩
      cases begun with
      | none => exact newline_notMem_beginChar hb
      | some begun => exact newline_notMem_continueChar hb

theorem newline_notMem_decodeUtf8 {bytes : Bytes} (h : 10 ∉ bytes) : '\n' ∉ decodeUtf8 bytes :=
  newline_notMem_decodeFrom h

/-- The complete lines of a text are those of its bytes. -/
theorem completeLines_decodeUtf8 (bytes : Bytes) :
    completeLines '\n' (decodeUtf8 bytes) = decodeUtf8 (completeLines 10 bytes) := by
  rcases notMem_or_split 10 bytes with hnot | ⟨lines, rest, rfl, hrest⟩
  · rw [completeLines_of_notMem hnot, completeLines_of_notMem (newline_notMem_decodeUtf8 hnot)]
    rfl
  · rw [decodeUtf8_append, completeLines_append (newline_notMem_decodeUtf8 hrest),
      completeLines_append hrest, decodeUtf8_append]
    rfl

/-- Bytes behind complete lines are decoded on their own. -/
theorem decodeUtf8_of_completeLines {lines : Bytes} (h : completeLines 10 lines = lines)
    (rest : Bytes) : decodeUtf8 (lines ++ rest) = decodeUtf8 lines ++ decodeUtf8 rest := by
  rcases eq_nil_or_concat_of_completeLines h with rfl | ⟨before, rfl⟩
  · rfl
  · rw [List.append_assoc, List.singleton_append, decodeUtf8_append, decodeUtf8_append]
    simp [decodeUtf8, decodeFrom]

/-! ## Written texts -/

/-- `Buffer.from(text, 'utf8')`. -/
def encodeUtf8 (text : List Char) : Bytes := text.flatMap String.utf8EncodeChar

/-- A character that is missing some of its bytes. -/
def Awaits (needed bits lower upper : Nat) (begun : BegunChar) : Prop :=
  begun.needed = needed ∧ begun.bits = bits ∧ begun.lower = lower ∧ begun.upper = upper

/-- The byte that completes a character. -/
theorem decodeFrom_last {bits lower upper b : Nat} {begun : BegunChar}
    (h : Awaits 1 bits lower upper begun) (hb : lower ≤ b ∧ b ≤ upper) (hbyte : b < 256)
    (rest : Bytes) :
    decodeFrom (some begun) (UInt8.ofNat b :: rest) =
      Char.ofNat (bits * 64 + (b - 128)) :: decodeFrom none rest := by
  obtain ⟨hneeded, rfl, rfl, rfl⟩ := h
  have hnat : (UInt8.ofNat b).toNat = b := UInt8.toNat_ofNat_of_lt' hbyte
  rw [decodeFrom_cons, hnat, decodeByte, continueChar, dif_pos hb]
  dsimp only
  rw [if_pos hneeded]
  rfl

/-- A byte that another one must follow. -/
theorem decodeFrom_next {needed bits lower upper b : Nat} {begun : BegunChar}
    (h : Awaits needed bits lower upper begun) (hneeded : needed ≠ 1)
    (hb : lower ≤ b ∧ b ≤ upper) (hbyte : b < 256) :
    ∃ begun', Awaits (needed - 1) (bits * 64 + (b - 128)) 0x80 0xBF begun' ∧
      ∀ rest, decodeFrom (some begun) (UInt8.ofNat b :: rest) = decodeFrom (some begun') rest := by
  obtain ⟨rfl, rfl, rfl, rfl⟩ := h
  have hnat : (UInt8.ofNat b).toNat = b := UInt8.toNat_ofNat_of_lt' hbyte
  have hlarge := begun.large
  refine ⟨⟨begun.needed - 1, begun.bits * 64 + (b - 128), 0x80, 0xBF, by omega, by omega⟩,
    ⟨rfl, rfl, rfl, rfl⟩, fun rest => ?_⟩
  rw [decodeFrom_cons, hnat, decodeByte, continueChar, dif_pos hb]
  dsimp only
  rw [if_neg hneeded]
  rfl

/-! The first bytes of the characters that have two, three and four. -/

theorem beginChar_two {n : Nat} (h : 2 ≤ n ∧ n < 32) :
    ∃ begun, Awaits 1 n 0x80 0xBF begun ∧ beginChar (n + 0xC0) = ([], some begun) := by
  obtain ⟨hlower, hupper⟩ := h
  interval_cases n <;> exact ⟨_, ⟨rfl, rfl, rfl, rfl⟩, rfl⟩

theorem beginChar_three {n : Nat} (h : n < 16) :
    ∃ begun, Awaits 2 n (if n = 0 then 0xA0 else 0x80) (if n = 13 then 0x9F else 0xBF) begun ∧
      beginChar (n + 0xE0) = ([], some begun) := by
  interval_cases n <;> exact ⟨_, ⟨rfl, rfl, rfl, rfl⟩, rfl⟩

theorem beginChar_four {n : Nat} (h : n < 5) :
    ∃ begun, Awaits 3 n (if n = 0 then 0x90 else 0x80) (if n = 4 then 0x8F else 0xBF) begun ∧
      beginChar (n + 0xF0) = ([], some begun) := by
  interval_cases n <;> exact ⟨_, ⟨rfl, rfl, rfl, rfl⟩, rfl⟩

theorem decodeFrom_first {b : Nat} {begun : BegunChar} (h : beginChar b = ([], some begun))
    (hbyte : b < 256) (rest : Bytes) :
    decodeFrom none (UInt8.ofNat b :: rest) = decodeFrom (some begun) rest := by
  have hnat : (UInt8.ofNat b).toNat = b := UInt8.toNat_ofNat_of_lt' hbyte
  rw [decodeFrom_cons, hnat, decodeByte, h]
  rfl

/-- The bytes of a character are read as it. -/
theorem decodeFrom_utf8EncodeChar (c : Char) (rest : Bytes) :
    decodeFrom none (String.utf8EncodeChar c ++ rest) = c :: decodeFrom none rest := by
  have hofNat : Char.ofNat c.val.toNat = c := Char.ofNat_toNat c
  have hvalid : c.val.toNat < 0xd800 ∨ 0xdfff < c.val.toNat ∧ c.val.toNat < 0x110000 := c.valid
  unfold String.utf8EncodeChar
  generalize c.val.toNat = v at *
  dsimp only
  split_ifs with h1 h2 h3
  · have hbyte : v < 256 := by omega
    have hnat : (UInt8.ofNat v).toNat = v := UInt8.toNat_ofNat_of_lt' hbyte
    rw [List.cons_append, decodeFrom_cons, hnat, decodeByte, beginChar, if_pos (by omega), hofNat]
    rfl
  · obtain ⟨begun, hbegun, hbegin⟩ := beginChar_two (n := v / 64 % 32) (by omega)
    rw [List.cons_append, decodeFrom_first hbegin (by omega), List.cons_append,
      decodeFrom_last hbegun (by omega) (by omega)]
    have hbits : v / 64 % 32 * 64 + (v % 64 + 128 - 128) = v := by omega
    rw [hbits, hofNat]
    rfl
  · -- from three bytes on the bounds of the second one depend on the first
    obtain ⟨begun, hbegun, hbegin⟩ := beginChar_three (n := v / 4096 % 16) (by omega)
    obtain ⟨begun', hbegun', hnext⟩ := decodeFrom_next (b := v / 64 % 64 + 128) hbegun (by omega)
      (by split_ifs <;> omega) (by omega)
    rw [List.cons_append, decodeFrom_first hbegin (by omega), List.cons_append, hnext,
      List.cons_append, decodeFrom_last hbegun' (by omega) (by omega)]
    have hbits : (v / 4096 % 16 * 64 + (v / 64 % 64 + 128 - 128)) * 64 + (v % 64 + 128 - 128) =
        v := by omega
    rw [hbits, hofNat]
    rfl
  · obtain ⟨begun, hbegun, hbegin⟩ := beginChar_four (n := v / 262144 % 8) (by omega)
    obtain ⟨begun', hbegun', hnext⟩ := decodeFrom_next (b := v / 4096 % 64 + 128) hbegun (by omega)
      (by split_ifs <;> omega) (by omega)
    obtain ⟨begun'', hbegun'', hnext'⟩ := decodeFrom_next (b := v / 64 % 64 + 128) hbegun'
      (by omega) (by omega) (by omega)
    rw [List.cons_append, decodeFrom_first hbegin (by omega), List.cons_append, hnext,
      List.cons_append, hnext', List.cons_append, decodeFrom_last hbegun'' (by omega) (by omega)]
    have hbits : ((v / 262144 % 8 * 64 + (v / 4096 % 64 + 128 - 128)) * 64 +
        (v / 64 % 64 + 128 - 128)) * 64 + (v % 64 + 128 - 128) = v := by omega
    rw [hbits, hofNat]
    rfl

/-- A text that has been written is read again. -/
theorem decodeUtf8_encodeUtf8 (text : List Char) : decodeUtf8 (encodeUtf8 text) = text := by
  induction text with
  | nil => rfl
  | cons c text ih =>
      calc decodeUtf8 (encodeUtf8 (c :: text))
          = c :: decodeUtf8 (encodeUtf8 text) := decodeFrom_utf8EncodeChar c (encodeUtf8 text)
        _ = c :: text := by rw [ih]

theorem encodeUtf8_injective : Function.Injective encodeUtf8 := by
  intro text text' h
  rw [← decodeUtf8_encodeUtf8 text, h, decodeUtf8_encodeUtf8]

end

/-! ## The length of decoded bytes

A well-formed character is decoded to one of as many bytes.  An ill-formed part of one to three bytes
becomes U+FFFD, which has three.
-/

/-- A byte that no character begins with. -/
def strayByte (b : Nat) : List Nat := if b < 0x80 ∨ (beginChar b).2.isSome then [] else [1]

/-- The lengths of the ill-formed parts, when `read` bytes of a character have been read. -/
def illFormedFrom : Nat → Option BegunChar → Bytes → List Nat
  | _, none, [] => []
  | read, some _, [] => [read]
  | _, none, b :: rest => strayByte b.toNat ++ illFormedFrom 1 (beginChar b.toNat).2 rest
  | read, some begun, b :: rest =>
      if begun.lower ≤ b.toNat ∧ b.toNat ≤ begun.upper then
        illFormedFrom (read + 1) (continueChar begun b.toNat).2 rest
      else read :: (strayByte b.toNat ++ illFormedFrom 1 (beginChar b.toNat).2 rest)

/-- The lengths of the ill-formed parts of bytes. -/
def illFormed (bytes : Bytes) : List Nat := illFormedFrom 0 none bytes

/-- A stray byte, a character that does not go on and half of a surrogate pair. -/
example : illFormed [0x61, 0xFF, 0xC3, 0xA4, 0xE2, 0x82, 0x0A, 0xED, 0xA0, 0x80] =
    [1, 2, 1, 1, 1] := by decide

/-! ### The sizes of characters -/

theorem toNat_ofNat {n : Nat} (h : n < 0xd800 ∨ 0xdfff < n ∧ n < 0x110000) :
    (Char.ofNat n).toNat = n := by
  rw [Char.ofNat, dif_pos h]
  rfl

theorem utf8Size_ofNat {n size : Nat} (h : n < 0xd800 ∨ 0xdfff < n ∧ n < 0x110000)
    (hsize : (size = 1 ∧ n < 0x80) ∨ (size = 2 ∧ 0x80 ≤ n ∧ n < 0x800) ∨
      (size = 3 ∧ 0x800 ≤ n ∧ n < 0x10000) ∨ (size = 4 ∧ 0x10000 ≤ n)) :
    (Char.ofNat n).utf8Size = size := by
  have hval : (Char.ofNat n).val.toNat = n := toNat_ofNat h
  rcases hsize with ⟨rfl, hn⟩ | ⟨rfl, hn⟩ | ⟨rfl, hn⟩ | ⟨rfl, hn⟩
  · rw [Char.utf8Size_eq_one_iff, UInt32.le_iff_toNat_le, hval]
    exact Nat.le_of_lt_succ hn
  · rw [Char.utf8Size_eq_two_iff, UInt32.lt_iff_toNat_lt, UInt32.le_iff_toNat_le, hval]
    exact ⟨hn.1, Nat.le_of_lt_succ hn.2⟩
  · rw [Char.utf8Size_eq_three_iff, UInt32.lt_iff_toNat_lt, UInt32.le_iff_toNat_le, hval]
    exact ⟨hn.1, Nat.le_of_lt_succ hn.2⟩
  · rw [Char.utf8Size_eq_four_iff, UInt32.lt_iff_toNat_lt, hval]
    exact hn

/-- The bytes that were read and the bounds of the next ones leave no character but those of as many
bytes, and no surrogate. -/
def WellBegun (read : Nat) (begun : BegunChar) : Prop :=
  (0x80 ≤ begun.lower ∧ begun.upper ≤ 0xBF) ∧
    ((read = 1 ∧ begun.needed = 1 ∧ 2 ≤ begun.bits ∧ begun.bits < 32) ∨
    (read = 1 ∧ begun.needed = 2 ∧ begun.bits < 16 ∧ (begun.bits = 0 → 0xA0 ≤ begun.lower) ∧
      (begun.bits = 13 → begun.upper ≤ 0x9F)) ∨
    (read = 2 ∧ begun.needed = 1 ∧
      (32 ≤ begun.bits ∧ begun.bits < 864 ∨ 896 ≤ begun.bits ∧ begun.bits < 1024)) ∨
    (read = 1 ∧ begun.needed = 3 ∧ begun.bits < 5 ∧ (begun.bits = 0 → 0x90 ≤ begun.lower) ∧
      (begun.bits = 4 → begun.upper ≤ 0x8F)) ∨
    (read = 2 ∧ begun.needed = 2 ∧ 16 ≤ begun.bits ∧ begun.bits < 272) ∨
    (read = 3 ∧ begun.needed = 1 ∧ 1024 ≤ begun.bits ∧ begun.bits < 17408))

theorem byteLength_nil : byteLength [] = 0 := rfl

theorem byteLength_cons (c : Char) (text : List Char) :
    byteLength (c :: text) = c.utf8Size + byteLength text := by simp [byteLength]

theorem byteLength_append (text rest : List Char) :
    byteLength (text ++ rest) = byteLength text + byteLength rest := by simp [byteLength]

/-- A byte outside of a character is one by itself, begins one, or is stray. -/
theorem beginChar_cases (b : Nat) :
    (b < 0x80 ∧ beginChar b = ([Char.ofNat b], none)) ∨
    (∃ begun, beginChar b = ([], some begun) ∧ WellBegun 1 begun) ∨
    (¬ b < 0x80 ∧ beginChar b = ([replacementCharacter], none)) := by
  unfold beginChar
  split_ifs with hascii htwo hE0 hED hthree hF0 hF4 hfour
  · exact .inl ⟨hascii, rfl⟩
  -- two bytes
  · refine .inr (.inl ⟨_, rfl, ⟨Nat.le_refl _, Nat.le_refl _⟩, .inl ⟨rfl, rfl, ?_⟩⟩)
    dsimp only
    omega
  -- three bytes
  · exact .inr (.inl ⟨_, rfl, by decide, .inr (.inl ⟨rfl, rfl, by decide⟩)⟩)
  · exact .inr (.inl ⟨_, rfl, by decide, .inr (.inl ⟨rfl, rfl, by decide⟩)⟩)
  · refine .inr (.inl ⟨_, rfl, ⟨Nat.le_refl _, Nat.le_refl _⟩, .inr (.inl ⟨rfl, rfl, ?_⟩)⟩)
    dsimp only
    omega
  -- four bytes
  · exact .inr (.inl ⟨_, rfl, by decide, .inr (.inr (.inr (.inl ⟨rfl, rfl, by decide⟩)))⟩)
  · exact .inr (.inl ⟨_, rfl, by decide, .inr (.inr (.inr (.inl ⟨rfl, rfl, by decide⟩)))⟩)
  · refine .inr (.inl ⟨_, rfl, ⟨Nat.le_refl _, Nat.le_refl _⟩,
      .inr (.inr (.inr (.inl ⟨rfl, rfl, ?_⟩)))⟩)
    dsimp only
    omega
  · exact .inr (.inr ⟨hascii, rfl⟩)

/-- A byte that goes on with a character completes it or leaves it well begun. -/
theorem continueChar_cases {read b : Nat} {begun : BegunChar} (h : WellBegun read begun)
    (hb : begun.lower ≤ b ∧ b ≤ begun.upper) :
    (byteLength (continueChar begun b).1 = read + 1 ∧ (continueChar begun b).2 = none) ∨
    (byteLength (continueChar begun b).1 = 0 ∧
      ∃ next, (continueChar begun b).2 = some next ∧ WellBegun (read + 1) next) := by
  obtain ⟨hbounds, hshape⟩ := h
  rw [continueChar, dif_pos hb]
  dsimp only
  split
  · next hneeded =>
      refine .inl ⟨?_, rfl⟩
      rw [byteLength_cons, byteLength_nil, Nat.add_zero]
      -- the bits read so far are in a range that leaves out the surrogates
      rcases hshape with h | h | h | h | h | h
      · exact utf8Size_ofNat (.inl (by omega)) (.inr (.inl (by omega)))
      · exact absurd (hneeded.symm.trans h.2.1) (by decide)
      · exact utf8Size_ofNat (by omega) (.inr (.inr (.inl (by omega))))
      · exact absurd (hneeded.symm.trans h.2.1) (by decide)
      · exact absurd (hneeded.symm.trans h.2.1) (by decide)
      · exact utf8Size_ofNat (.inr (by omega)) (.inr (.inr (.inr (by omega))))
  · next hneeded =>
      refine .inr ⟨rfl, _, rfl, ⟨Nat.le_refl _, Nat.le_refl _⟩, ?_⟩
      dsimp only
      rcases hshape with h | h | h | h | h | h
      · exact absurd h.2.1 hneeded
      · obtain ⟨rfl, hone, hlarge, hzero, hlast⟩ := h
        have hbits : 32 ≤ begun.bits * 64 + (b - 128) ∧ begun.bits * 64 + (b - 128) < 864 ∨
            896 ≤ begun.bits * 64 + (b - 128) ∧ begun.bits * 64 + (b - 128) < 1024 := by omega
        exact .inr (.inr (.inl ⟨rfl, by rw [hone], hbits⟩))
      · exact absurd h.2.1 hneeded
      · obtain ⟨rfl, htwo, hlarge, hzero, hlast⟩ := h
        have hbits : 16 ≤ begun.bits * 64 + (b - 128) ∧ begun.bits * 64 + (b - 128) < 272 := by
          omega
        exact .inr (.inr (.inr (.inr (.inl ⟨rfl, by rw [htwo], hbits⟩))))
      · obtain ⟨rfl, hone, hsmall, hlarge⟩ := h
        have hbits : 1024 ≤ begun.bits * 64 + (b - 128) ∧
            begun.bits * 64 + (b - 128) < 17408 := by omega
        exact .inr (.inr (.inr (.inr (.inr ⟨rfl, by rw [hone], hbits⟩))))
      · exact absurd h.2.1 hneeded

/-! ### Lengths -/

/-- The bytes of a character that was begun. -/
def readOf (read : Nat) : Option BegunChar → Nat
  | none => 0
  | some _ => read

/-- What is decoded has three bytes for each ill-formed part and the others as they are. -/
theorem byteLength_decodeFrom (bytes : Bytes) (read : Nat) (begun : Option BegunChar)
    (h : ∀ b ∈ begun, WellBegun read b) :
    byteLength (decodeFrom begun bytes) + (illFormedFrom read begun bytes).sum =
      readOf read begun + bytes.length + 3 * (illFormedFrom read begun bytes).length := by
  have hreplacement : replacementCharacter.utf8Size = 3 := by decide
  induction bytes generalizing read begun with
  | nil =>
      cases begun with
      | none => rfl
      | some begun =>
          rw [decodeFrom, illFormedFrom, byteLength_cons, hreplacement]
          simp [byteLength_nil, readOf, Nat.add_comm]
  | cons b rest ih =>
      -- a byte that is read outside of a character
      have hbegin : byteLength ((beginChar b.toNat).1 ++ decodeFrom (beginChar b.toNat).2 rest) +
          (strayByte b.toNat ++ illFormedFrom 1 (beginChar b.toNat).2 rest).sum =
            rest.length + 1 +
              3 * (strayByte b.toNat ++ illFormedFrom 1 (beginChar b.toNat).2 rest).length := by
        rw [byteLength_append, List.sum_append, List.length_append]
        rcases beginChar_cases b.toNat with ⟨hascii, hbegin⟩ | ⟨next, hbegin, hwell⟩ |
          ⟨hascii, hbegin⟩
        · have hrest := ih 1 none (fun _ hb => nomatch hb)
          have hsize : (Char.ofNat b.toNat).utf8Size = 1 :=
            utf8Size_ofNat (.inl (by omega)) (.inl ⟨rfl, hascii⟩)
          rw [strayByte, if_pos (.inl hascii), hbegin, List.sum_nil, List.length_nil]
          dsimp only
          rw [byteLength_cons, hsize, byteLength_nil]
          rw [readOf] at hrest
          omega
        · have hrest := ih 1 (some next) (fun b hb => by rwa [← Option.some.inj hb])
          rw [strayByte, hbegin, if_pos (.inr rfl), List.sum_nil, List.length_nil]
          dsimp only
          rw [byteLength_nil]
          rw [readOf] at hrest
          omega
        · have hrest := ih 1 none (fun _ hb => nomatch hb)
          rw [strayByte, hbegin]
          dsimp only
          rw [if_neg (by simpa using hascii), byteLength_cons, hreplacement, byteLength_nil,
            List.sum_singleton, List.length_singleton]
          rw [readOf] at hrest
          omega
      cases begun with
      | none =>
          rw [decodeFrom_cons, decodeByte, illFormedFrom, readOf, List.length_cons]
          omega
      | some begun =>
          rw [decodeFrom_cons, decodeByte, illFormedFrom, readOf, List.length_cons]
          by_cases hb : begun.lower ≤ b.toNat ∧ b.toNat ≤ begun.upper
          · rw [if_pos hb, byteLength_append]
            rcases continueChar_cases (h begun rfl) hb with ⟨hlength, hnone⟩ |
              ⟨hlength, next, hnext, hwell⟩
            · have hrest := ih (read + 1) none (fun _ hb => nomatch hb)
              rw [hlength, hnone]
              rw [readOf] at hrest
              omega
            · have hrest := ih (read + 1) (some next) (fun b hb => by rwa [← Option.some.inj hb])
              rw [hlength, hnext]
              rw [readOf] at hrest
              omega
          · rw [if_neg hb, continueChar, dif_neg hb]
            dsimp only
            rw [List.cons_append, byteLength_cons, hreplacement, List.sum_cons, List.length_cons]
            omega

/-- Decoded bytes have their length exactly if their ill-formed parts have three bytes each, taken
together. -/
theorem byteLength_decodeUtf8_iff (bytes : Bytes) :
    byteLength (decodeUtf8 bytes) = bytes.length ↔
      (illFormed bytes).sum = 3 * (illFormed bytes).length := by
  have hlength := byteLength_decodeFrom bytes 0 none (fun _ hb => nomatch hb)
  rw [readOf] at hlength
  rw [decodeUtf8, illFormed]
  omega

end ThinkLocal.Js
