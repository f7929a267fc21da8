import ThinkLocal.Js.JsonRoundTrip
import ThinkLocal.Js.Utf8

/-!
# UTF-16

A string of JavaScript is a list of code units, in which a half of a surrogate pair may stand alone.
Its bytes are those of the text in which every such half is U+FFFD, so a string is told by its bytes
unless it has such a half or U+FFFD itself.
-/

namespace ThinkLocal.Js

open Json (decodeUnits unitChar isSurrogate toNat_not_surrogate)

abbrev CodeUnits := List UInt16

/-- `text.toWellFormed()`. -/
def toWellFormed (text : CodeUnits) : List Char := decodeUnits (text.map UInt16.toNat)

/-- `Buffer.from(text, 'utf8')`. -/
def utf8Bytes (text : CodeUnits) : Bytes := encodeUtf8 (toWellFormed text)

/-- The code units of a character. -/
def unitsOf (c : Char) : CodeUnits :=
  if c.toNat < 0x10000 then [.ofNat c.toNat]
  else [.ofNat (0xD800 + (c.toNat - 0x10000) / 0x400), .ofNat (0xDC00 + (c.toNat - 0x10000) % 0x400)]

/-- The code units of a text. -/
def codeUnitsOf (text : List Char) : CodeUnits := text.flatMap unitsOf

/-- The first half of a surrogate pair and the second. -/
def IsPair (high low : UInt16) : Prop :=
  (0xd800 ≤ high.toNat ∧ high.toNat < 0xdc00) ∧ (0xdc00 ≤ low.toNat ∧ low.toNat < 0xe000)

instance (high low : UInt16) : Decidable (IsPair high low) := inferInstanceAs (Decidable (_ ∧ _))

variable {text text' rest : CodeUnits} {unit high low : UInt16} {c : Char}

theorem toWellFormed_of_pair (h : IsPair high low) (rest : CodeUnits) :
    toWellFormed (high :: low :: rest) =
      Char.ofNat (0x10000 + (high.toNat - 0xd800) * 0x400 + (low.toNat - 0xdc00)) ::
        toWellFormed rest :=
  if_pos h

theorem toWellFormed_of_not_pair (h : ¬ IsPair high low) (rest : CodeUnits) :
    toWellFormed (high :: low :: rest) = unitChar high.toNat :: toWellFormed (low :: rest) :=
  if_neg h

theorem unitChar_of_surrogate (h : isSurrogate unit.toNat = true) :
    unitChar unit.toNat = replacementCharacter := if_pos h

/-- A code unit that is no half of a pair. -/
theorem toWellFormed_cons (h : isSurrogate unit.toNat = false) (rest : CodeUnits) :
    toWellFormed (unit :: rest) = Char.ofNat unit.toNat :: toWellFormed rest := by
  have hunit : unitChar unit.toNat = Char.ofNat unit.toNat := if_neg (by simp [h])
  cases rest with
  | nil => exact congrArg (· :: []) hunit
  | cons low rest =>
      have hpair : ¬ IsPair unit low := by
        rintro ⟨hhigh, -⟩
        rw [isSurrogate, decide_eq_false_iff_not] at h
        omega
      rw [toWellFormed_of_not_pair hpair, hunit]

/-- What stands before a code unit that is no half of a pair is read on its own. -/
theorem toWellFormed_append_cons (h : isSurrogate unit.toNat = false) (rest : CodeUnits) :
    ∀ text : CodeUnits, toWellFormed (text ++ unit :: rest) =
      toWellFormed text ++ Char.ofNat unit.toNat :: toWellFormed rest
  | [] => toWellFormed_cons h rest
  | [other] => by
      have hpair : ¬ IsPair other unit := by
        rintro ⟨-, hlow⟩
        rw [isSurrogate, decide_eq_false_iff_not] at h
        omega
      rw [List.singleton_append, toWellFormed_of_not_pair hpair, toWellFormed_cons h]
      rfl
  | high :: low :: text => by
      have hrest := toWellFormed_append_cons h rest text
      have hnext := toWellFormed_append_cons h rest (low :: text)
      rw [List.cons_append] at hnext
      rw [List.cons_append, List.cons_append]
      by_cases hpair : IsPair high low
      · rw [toWellFormed_of_pair hpair, toWellFormed_of_pair hpair, hrest]
        rfl
      · rw [toWellFormed_of_not_pair hpair, toWellFormed_of_not_pair hpair, hnext]
        rfl

/-! ## Characters as code units -/

theorem decodeUnits_cons (c : Char) (rest : List Nat) :
    decodeUnits ((if c.toNat < 0x10000 then [c.toNat]
      else [0xD800 + (c.toNat - 0x10000) / 0x400, 0xDC00 + (c.toNat - 0x10000) % 0x400]) ++ rest) =
      c :: decodeUnits rest := by
  have hsurrogate := toNat_not_surrogate c
  split_ifs with hplane
  · have hunit : unitChar c.toNat = c := by
      have hvalid : ¬ isSurrogate c.toNat = true := by
        simp only [isSurrogate, decide_eq_true_eq]
        omega
      rw [unitChar, if_neg hvalid, Char.ofNat_toNat]
    cases rest with
    | nil => exact congrArg (· :: []) hunit
    | cons low rest =>
        -- no first half of a pair, so the next unit does not matter
        have hpair : ¬ ((0xd800 ≤ c.toNat ∧ c.toNat < 0xdc00) ∧ 0xdc00 ≤ low ∧ low < 0xe000) := by
          omega
        rw [List.singleton_append, decodeUnits, if_neg hpair, hunit]
  · -- both halves are in their ranges, and the pair is read back as its character
    have hmax : c.toNat < 0x110000 := by
      rcases c.valid with hlow | ⟨-, hhigh⟩
      · exact lt_trans hlow (by decide)
      · exact hhigh
    have hpair : (0xd800 ≤ 0xD800 + (c.toNat - 0x10000) / 0x400 ∧
        0xD800 + (c.toNat - 0x10000) / 0x400 < 0xdc00) ∧
        0xdc00 ≤ 0xDC00 + (c.toNat - 0x10000) % 0x400 ∧
          0xDC00 + (c.toNat - 0x10000) % 0x400 < 0xe000 := by
      omega
    have hchar : 0x10000 + (0xD800 + (c.toNat - 0x10000) / 0x400 - 0xd800) * 0x400 +
        (0xDC00 + (c.toNat - 0x10000) % 0x400 - 0xdc00) = c.toNat := by
      omega
    rw [List.cons_append, List.singleton_append, decodeUnits, if_pos hpair, hchar,
      Char.ofNat_toNat]

theorem toWellFormed_unitsOf_append (c : Char) (rest : CodeUnits) :
    toWellFormed (unitsOf c ++ rest) = c :: toWellFormed rest := by
  have hnat : ∀ n, n < 0x10000 → (UInt16.ofNat n).toNat = n := fun n => UInt16.toNat_ofNat_of_lt'
  have hmax : c.toNat < 0x110000 := by
    rcases c.valid with hlow | ⟨-, hhigh⟩
    · exact lt_trans hlow (by decide)
    · exact hhigh
  calc toWellFormed (unitsOf c ++ rest)
      = decodeUnits ((unitsOf c).map UInt16.toNat ++ rest.map UInt16.toNat) := by
        rw [toWellFormed, List.map_append]
    _ = decodeUnits ((if c.toNat < 0x10000 then [c.toNat]
          else [0xD800 + (c.toNat - 0x10000) / 0x400, 0xDC00 + (c.toNat - 0x10000) % 0x400]) ++
            rest.map UInt16.toNat) := by
        rw [unitsOf]
        split_ifs with hplane
        · rw [List.map_singleton, hnat _ hplane]
        · rw [List.map_cons, List.map_singleton, hnat _ (by omega), hnat _ (by omega)]
    _ = c :: toWellFormed rest := decodeUnits_cons c _

theorem toWellFormed_codeUnitsOf_append (chars : List Char) (rest : CodeUnits) :
    toWellFormed (codeUnitsOf chars ++ rest) = chars ++ toWellFormed rest := by
  induction chars with
  | nil => rfl
  | cons c chars ih =>
      rw [codeUnitsOf, List.flatMap_cons, List.append_assoc, toWellFormed_unitsOf_append,
        ← codeUnitsOf, ih]
      rfl

@[simp] theorem toWellFormed_codeUnitsOf (chars : List Char) :
    toWellFormed (codeUnitsOf chars) = chars := by
  have happend := toWellFormed_codeUnitsOf_append chars []
  rwa [List.append_nil, show toWellFormed [] = [] from rfl, List.append_nil] at happend

/-! ## Halves that stand alone -/

theorem toNat_ofNat_unit (h : isSurrogate unit.toNat = false) :
    (Char.ofNat unit.toNat).toNat = unit.toNat := by
  have hlt : unit.toNat < 0x10000 := unit.toNat_lt
  rw [isSurrogate, decide_eq_false_iff_not] at h
  exact toNat_ofNat (by omega)

theorem unitsOf_ofNat (h : isSurrogate unit.toNat = false) :
    unitsOf (Char.ofNat unit.toNat) = [unit] := by
  have hlt : unit.toNat < 0x10000 := unit.toNat_lt
  rw [unitsOf, toNat_ofNat_unit h, if_pos hlt, UInt16.ofNat_toNat]

theorem unitsOf_pair (h : IsPair high low) :
    unitsOf (Char.ofNat (0x10000 + (high.toNat - 0xd800) * 0x400 + (low.toNat - 0xdc00))) =
      [high, low] := by
  obtain ⟨hhigh, hlow⟩ := h
  have hnat : (Char.ofNat (0x10000 + (high.toNat - 0xd800) * 0x400 +
      (low.toNat - 0xdc00))).toNat =
        0x10000 + (high.toNat - 0xd800) * 0x400 + (low.toNat - 0xdc00) :=
    toNat_ofNat (by omega)
  have hfirst : 0xD800 + (0x10000 + (high.toNat - 0xd800) * 0x400 + (low.toNat - 0xdc00) -
      0x10000) / 0x400 = high.toNat := by
    omega
  have hsecond : 0xDC00 + (0x10000 + (high.toNat - 0xd800) * 0x400 + (low.toNat - 0xdc00) -
      0x10000) % 0x400 = low.toNat := by
    omega
  rw [unitsOf, hnat, if_neg (by omega), hfirst, hsecond, UInt16.ofNat_toNat, UInt16.ofNat_toNat]

/-- A string without U+FFFD in its text is read back from it. -/
theorem codeUnitsOf_toWellFormed : ∀ {text : CodeUnits},
    replacementCharacter ∉ toWellFormed text → codeUnitsOf (toWellFormed text) = text
  | [], _ => rfl
  | [unit], h => by
      cases hunit : isSurrogate unit.toNat with
      | true =>
          refine absurd (List.mem_singleton.mpr ?_) h
          exact (unitChar_of_surrogate hunit).symm
      | false =>
          rw [toWellFormed_cons hunit]
          exact (List.append_nil _).trans (unitsOf_ofNat hunit)
  | high :: low :: text, h => by
      by_cases hpair : IsPair high low
      · rw [toWellFormed_of_pair hpair] at h ⊢
        rw [codeUnitsOf, List.flatMap_cons, unitsOf_pair hpair, ← codeUnitsOf,
          codeUnitsOf_toWellFormed fun hmem => h (List.mem_cons_of_mem _ hmem)]
        rfl
      · rw [toWellFormed_of_not_pair hpair] at h
        cases hunit : isSurrogate high.toNat with
        | true => exact absurd (unitChar_of_surrogate hunit ▸ List.mem_cons_self) h
        | false =>
            rw [toWellFormed_cons hunit, codeUnitsOf, List.flatMap_cons, unitsOf_ofNat hunit,
              ← codeUnitsOf, codeUnitsOf_toWellFormed fun hmem => h (List.mem_cons_of_mem _ hmem)]
            rfl

/-- A string without U+FFFD in its text is told by that. -/
theorem eq_of_toWellFormed_eq (h : replacementCharacter ∉ toWellFormed text)
    (heq : toWellFormed text = toWellFormed text') : text = text' := by
  rw [← codeUnitsOf_toWellFormed h, heq, codeUnitsOf_toWellFormed (heq ▸ h)]

/-- A string with U+FFFD in its text has the text of another one. -/
theorem exists_toWellFormed_eq (h : replacementCharacter ∈ toWellFormed text) :
    ∃ text', text' ≠ text ∧ toWellFormed text' = toWellFormed text := by
  obtain ⟨before, after, hsplit⟩ := List.append_of_mem h
  -- U+FFFD itself, and the second half of a pair without the first
  have hreplaced : ∀ unit : UInt16, unit = 0xfffd ∨ unit = 0xdc00 →
      toWellFormed (codeUnitsOf before ++ unit :: codeUnitsOf after) = toWellFormed text := by
    rintro unit (rfl | rfl)
    · rw [toWellFormed_codeUnitsOf_append, toWellFormed_cons (by decide),
        toWellFormed_codeUnitsOf, hsplit]
      rfl
    · rw [toWellFormed_codeUnitsOf_append, hsplit]
      refine congrArg (before ++ ·) ?_
      cases hunits : codeUnitsOf after with
      | nil =>
          have hafter := toWellFormed_codeUnitsOf after
          rw [hunits] at hafter
          rw [← hafter]
          rfl
      | cons low rest =>
          have hpair : ¬ IsPair 0xdc00 low := fun hpair => absurd hpair.1.2 (by decide)
          rw [toWellFormed_of_not_pair hpair, ← hunits, toWellFormed_codeUnitsOf]
          rfl
  by_cases hsame : codeUnitsOf before ++ 0xfffd :: codeUnitsOf after = text
  · refine ⟨_, fun heq => ?_, hreplaced 0xdc00 (.inr rfl)⟩
    have hunits := (List.cons.inj (List.append_cancel_left (heq.trans hsame.symm))).1
    exact absurd hunits (by decide)
  · exact ⟨_, hsame, hreplaced 0xfffd (.inl rfl)⟩

/-! ## Separators -/

/-- Another code unit stands for another character. -/
theorem eq_of_ofNat_eq_unitChar {other : UInt16} (h : isSurrogate unit.toNat = false)
    (hne : unit ≠ 0xfffd) (heq : Char.ofNat unit.toNat = unitChar other.toNat) : unit = other := by
  have hnat := congrArg Char.toNat heq
  rw [toNat_ofNat_unit h] at hnat
  cases hother : isSurrogate other.toNat with
  | true =>
      rw [unitChar_of_surrogate hother] at hnat
      exact absurd (UInt16.toNat_inj.mp hnat) hne
  | false =>
      rw [unitChar, if_neg (by simp [hother]), toNat_ofNat_unit hother] at hnat
      exact UInt16.toNat_inj.mp hnat

/-- A character of one code unit is in a text only if that is in the string. -/
theorem mem_of_mem_toWellFormed (h : isSurrogate unit.toNat = false) (hne : unit ≠ 0xfffd) :
    ∀ {text : CodeUnits}, Char.ofNat unit.toNat ∈ toWellFormed text → unit ∈ text
  | [], hmem => nomatch hmem
  | [other], hmem =>
      List.mem_singleton.mpr (eq_of_ofNat_eq_unitChar h hne (List.mem_singleton.mp hmem))
  | high :: low :: text, hmem => by
      by_cases hpair : IsPair high low
      · rw [toWellFormed_of_pair hpair] at hmem
        rcases List.mem_cons.mp hmem with heq | hrest
        · -- the character of a pair is beyond those of one code unit
          obtain ⟨hhigh, hlow⟩ := hpair
          have hlt : unit.toNat < 0x10000 := unit.toNat_lt
          have hnat := congrArg Char.toNat heq
          rw [toNat_ofNat_unit h, toNat_ofNat (by omega)] at hnat
          omega
        · exact List.mem_cons_of_mem _ (List.mem_cons_of_mem _ (mem_of_mem_toWellFormed h hne hrest))
      · rw [toWellFormed_of_not_pair hpair] at hmem
        rcases List.mem_cons.mp hmem with heq | hrest
        · exact eq_of_ofNat_eq_unitChar h hne heq ▸ List.mem_cons_self
        · exact List.mem_cons_of_mem _ (mem_of_mem_toWellFormed h hne hrest)

/-- Joined strings are the joined texts. -/
theorem toWellFormed_intercalate (h : isSurrogate unit.toNat = false) (parts : List CodeUnits) :
    toWellFormed ([unit].intercalate parts) =
      [Char.ofNat unit.toNat].intercalate (parts.map toWellFormed) := by
  induction parts with
  | nil => rfl
  | cons part parts ih =>
      cases parts with
      | nil => rw [List.intercalate_singleton, List.map_singleton, List.intercalate_singleton]
      | cons next parts =>
          rw [List.intercalate_cons_cons, List.append_assoc, List.singleton_append,
            toWellFormed_append_cons h, ih, List.map_cons, List.map_cons, List.map_cons,
            List.intercalate_cons_cons, List.append_assoc, List.singleton_append]

end ThinkLocal.Js
