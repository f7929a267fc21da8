import Mathlib.Data.List.DropRight
import ThinkLocal.Js.Number

/-!
# Decimal texts of numbers

The number that a decimal literal denotes, rounded to the nearest double, and `String(n)`, the
shortest decimal that is rounded to the number.
-/

namespace ThinkLocal.Js

/-- `± digits · 10 ^ exponent`. -/
structure Decimal where
  negative : Bool
  digits : Nat
  exponent : Int
deriving DecidableEq

/-! ## Rounding -/

/-- `n / d`, rounded to the nearest integer and between two to the even one. -/
def roundHalfEven (n d : Nat) : Nat :=
  if 2 * (n % d) < d ∨ (2 * (n % d) = d ∧ n / d % 2 = 0) then n / d else n / d + 1

/-- `n / d · b ^ e` as a fraction of naturals. -/
def scaled (b n d : Nat) (e : Int) : Nat × Nat := (n * b ^ e.toNat, d * b ^ (-e).toNat)

/-- The exponent of the last binary place of the double nearest to `n / d`, where `n / d` is above
0. -/
def lastPlace (n d : Nat) : Int :=
  let e : Int := (Nat.log2 n : Int) - Nat.log2 d - 53
  let (n', d') := scaled 2 n d (-e)
  max (if n' / d' < 2 ^ 53 then e else e + 1) (-1074)

/-- The double nearest to `n / d`, `none` where that is infinite. -/
def nearestDouble (n d : Nat) : Option ℚ :=
  if n = 0 then some 0
  else
    let e := lastPlace n d
    let (n', d') := scaled 2 n d (-e)
    let m := roundHalfEven n' d'
    if 971 < e ∨ (e = 971 ∧ m = 2 ^ 53) then none else some (m * (2 : ℚ) ^ e)

/-- The number of decimal digits. -/
def digitCount (n : Nat) : Nat := (Nat.toDigits 10 n).length

/-- The number that a literal denotes; far outside the range of a double no power is computed. -/
def Decimal.value (d : Decimal) : Number :=
  let size : Int := digitCount d.digits + d.exponent
  let magnitude : Option ℚ :=
    if d.digits = 0 ∨ size < -400 then some 0
    else if 400 < size then none
    else
      let (n, d) := scaled 10 d.digits 1 d.exponent
      nearestDouble n d
  match magnitude with
  | some q => .finite (if d.negative then -q else q)
  | none => if d.negative then .negInfinity else .infinity

/-- The double nearest to a rational number. -/
def roundDouble (q : ℚ) : Number :=
  match nearestDouble q.num.natAbs q.den with
  | some m => .finite (if q < 0 then -m else m)
  | none => if q < 0 then .negInfinity else .infinity

/-! ## Literals -/

/-- The digits of a literal: before and after the point, and the exponent with its sign. -/
structure Literal where
  negative : Bool
  whole : List Char
  fraction : List Char
  exponent : Option (Bool × List Char)
deriving DecidableEq

namespace Literal

def fractionText (fraction : List Char) : List Char :=
  if fraction = [] then [] else '.' :: fraction

def exponentText : Option (Bool × List Char) → List Char
  | none => []
  | some (negative, digits) => 'e' :: (if negative then '-' else '+') :: digits

def text (l : Literal) : List Char :=
  let unsigned := l.whole ++ (fractionText l.fraction ++ exponentText l.exponent)
  if l.negative then '-' :: unsigned else unsigned

def decimal (l : Literal) : Decimal where
  negative := l.negative
  digits := Nat.ofDigitChars 10 (l.whole ++ l.fraction) 0
  exponent :=
    (match l.exponent with
    | none => 0
    | some (negative, digits) =>
        if negative then -(Nat.ofDigitChars 10 digits 0 : Int) else Nat.ofDigitChars 10 digits 0) -
      l.fraction.length

/-- The literals of JSON. -/
structure Valid (l : Literal) : Prop where
  whole_ne : l.whole ≠ []
  whole_digits : ∀ c ∈ l.whole, c.isDigit = true
  leading : l.whole.head? = some '0' → l.whole = ['0']
  fraction_digits : ∀ c ∈ l.fraction, c.isDigit = true
  exponent_ne : ∀ e ∈ l.exponent, e.2 ≠ []
  exponent_digits : ∀ e ∈ l.exponent, ∀ c ∈ e.2, c.isDigit = true

end Literal

/-- The digits at the start of a text, and the rest. -/
def spanDigits (text : List Char) : List Char × List Char := text.span Char.isDigit

def readSign : List Char → Bool × List Char
  | '-' :: rest => (true, rest)
  | '+' :: rest => (false, rest)
  | rest => (false, rest)

def readWhole (text : List Char) : Option (List Char × List Char) :=
  let (digits, rest) := spanDigits text
  if digits = [] ∨ (digits.head? = some '0' ∧ digits ≠ ['0']) then none else some (digits, rest)

def readFraction : List Char → Option (List Char × List Char)
  | '.' :: rest =>
      let (digits, rest) := spanDigits rest
      if digits = [] then none else some (digits, rest)
  | rest => some ([], rest)

def readExponent : List Char → Option (Option (Bool × List Char))
  | [] => some none
  | c :: rest =>
      let (negative, digits) := readSign rest
      if (c = 'e' ∨ c = 'E') ∧ digits ≠ [] ∧ digits.all Char.isDigit then
        some (some (negative, digits))
      else none

/-- A literal after its sign. -/
def readUnsigned (negative : Bool) (text : List Char) : Option Literal :=
  (readWhole text).bind fun (whole, rest) =>
    (readFraction rest).bind fun (fraction, rest) =>
      (readExponent rest).map fun exponent => ⟨negative, whole, fraction, exponent⟩

/-- A whole text read as a number of JSON. -/
def readLiteral : List Char → Option Literal
  | '-' :: rest => readUnsigned true rest
  | rest => readUnsigned false rest

/-! ## The shortest decimal -/

/-- The number of places before the point: `10 ^ (k - 1) ≤ n / d < 10 ^ k`. -/
def placesBefore (n d : Nat) : Int :=
  let k : Int := (digitCount n : Int) - digitCount d
  let (n', d') := scaled 10 n d (-k)
  if d' ≤ n' then k + 1 else k

/-- The decimals of a number of digits next to `n / d` that are rounded to it, the nearer one first. -/
def decimalsOf (n d : Nat) (count : Nat) : List Decimal :=
  let exponent := placesBefore n d - count
  let (n', d') := scaled 10 n d (-exponent)
  let candidates := if roundHalfEven n' d' = n' / d' then [n' / d', n' / d' + 1]
    else [n' / d' + 1, n' / d']
  (candidates.map fun digits => ⟨false, digits, exponent⟩).filter fun decimal =>
    decimal.value = .finite (n / d)

/-- The shortest decimal that is rounded to `n / d`. -/
def shortestDecimal (n d : Nat) : Decimal :=
  (((List.range 17).flatMap fun i => decimalsOf n d (i + 1)).head?).getD ⟨false, n, 0⟩

/-- The layout of digits without trailing zeros, the point after `places` of them. -/
def layoutDigits (negative : Bool) (digits : List Char) (places : Int) : Literal :=
  if 21 < places ∨ places ≤ -6 then
    ⟨negative, digits.take 1, digits.drop 1, some (places < 1, Nat.toDigits 10 (places - 1).natAbs)⟩
  else if places ≤ 0 then
    ⟨negative, ['0'], List.replicate (-places).toNat '0' ++ digits, none⟩
  else
    ⟨negative, digits.take places.toNat ++ List.replicate (places.toNat - digits.length) '0',
      digits.drop places.toNat, none⟩

/-- The literal that `String(q)` writes. -/
def literalOf (q : ℚ) : Literal :=
  if q.num = 0 then ⟨false, ['0'], [], none⟩
  else
    let decimal := shortestDecimal q.num.natAbs q.den
    let digits := Nat.toDigits 10 decimal.digits
    layoutDigits (decide (q < 0)) (digits.rdropWhile fun c => c = '0')
      (digits.length + decimal.exponent)

/-- `String(n)`. -/
def Number.text : Number → List Char
  | .nan => ['N', 'a', 'N']
  | .negInfinity => ['-', 'I', 'n', 'f', 'i', 'n', 'i', 't', 'y']
  | .infinity => ['I', 'n', 'f', 'i', 'n', 'i', 't', 'y']
  | .finite q => (literalOf q).text

/-! ## What `String(n)` writes is a literal -/

theorem spanDigits_append {digits rest : List Char} (hdigits : ∀ c ∈ digits, c.isDigit = true)
    (hrest : ∀ c ∈ rest.head?, c.isDigit = false) : spanDigits (digits ++ rest) = (digits, rest) := by
  rw [spanDigits, List.span_eq_takeWhile_dropWhile, List.takeWhile_append_of_pos hdigits,
    List.dropWhile_append_of_pos hdigits]
  cases rest with
  | nil => simp
  | cons c rest =>
      have hc : c.isDigit = false := hrest c rfl
      simp [hc]

namespace Literal

variable {l : Literal}

/-- What stands after digits in a literal does not go on with a digit. -/
theorem isDigit_head_exponentText (e : Option (Bool × List Char)) :
    ∀ c ∈ (exponentText e).head?, c.isDigit = false := by
  intro c hc
  cases e with
  | none => cases hc
  | some e =>
      obtain rfl := Option.some.inj hc
      rfl

theorem isDigit_head_fractionText (fraction : List Char) (e : Option (Bool × List Char)) :
    ∀ c ∈ (fractionText fraction ++ exponentText e).head?, c.isDigit = false := by
  intro c hc
  by_cases hnil : fraction = []
  · rw [fractionText, if_pos hnil, List.nil_append] at hc
    exact isDigit_head_exponentText e c hc
  · rw [fractionText, if_neg hnil] at hc
    obtain rfl := Option.some.inj hc
    rfl

theorem readExponent_exponentText (h : l.Valid) :
    readExponent (exponentText l.exponent) = some l.exponent := by
  cases hexp : l.exponent with
  | none => rfl
  | some e =>
      obtain ⟨negative, digits⟩ := e
      have hne : digits ≠ [] := h.exponent_ne _ hexp
      have hall : digits.all Char.isDigit = true := by
        simpa using h.exponent_digits _ hexp
      cases negative <;> simp [exponentText, readExponent, readSign, hne, hall]

theorem readFraction_fractionText (h : l.Valid) :
    readFraction (fractionText l.fraction ++ exponentText l.exponent) =
      some (l.fraction, exponentText l.exponent) := by
  by_cases hnil : l.fraction = []
  · rw [hnil, fractionText, if_pos rfl, List.nil_append]
    cases l.exponent <;> rfl
  · rw [fractionText, if_neg hnil, List.cons_append, readFraction,
      spanDigits_append h.fraction_digits (isDigit_head_exponentText _)]
    exact if_neg hnil

theorem readWhole_whole (h : l.Valid) {rest : List Char}
    (hrest : ∀ c ∈ rest.head?, c.isDigit = false) :
    readWhole (l.whole ++ rest) = some (l.whole, rest) := by
  rw [readWhole, spanDigits_append h.whole_digits hrest]
  refine if_neg ?_
  rintro (hnil | ⟨hzero, hne⟩)
  · exact h.whole_ne hnil
  · exact hne (h.leading hzero)

/-- A literal is read back from its text. -/
theorem readLiteral_text (h : l.Valid) : readLiteral l.text = some l := by
  have hunsigned : readUnsigned l.negative
      (l.whole ++ (fractionText l.fraction ++ exponentText l.exponent)) = some l := by
    rw [readUnsigned, readWhole_whole h (isDigit_head_fractionText _ _), Option.bind_some]
    dsimp only
    rw [readFraction_fractionText h, Option.bind_some]
    dsimp only
    rw [readExponent_exponentText h]
    rfl
  cases hnegative : l.negative with
  | true =>
      rw [text, if_pos hnegative, ← hunsigned, hnegative]
      rfl
  | false =>
      -- a text that starts with a digit has no sign
      obtain ⟨c, whole, hwhole⟩ := List.exists_cons_of_ne_nil h.whole_ne
      have hdigit : c.isDigit = true := h.whole_digits c (by simp [hwhole])
      have hne : c ≠ '-' := by
        rintro rfl
        cases hdigit
      rw [text, if_neg (by simp [hnegative]), ← hunsigned, hnegative, hwhole]
      unfold readLiteral
      split
      · next heq => exact absurd (List.cons.inj heq).1 hne
      · rfl

end Literal

/-! ## What `String(n)` writes is a literal -/

/-- A positive number has no leading zero. -/
theorem head_toDigits_ne_zero {n : Nat} (hn : n ≠ 0) : (Nat.toDigits 10 n).head? ≠ some '0' := by
  induction n using Nat.strongRecOn with
  | ind n ih =>
      by_cases hsmall : n < 10
      · rw [Nat.toDigits_of_lt_base hsmall]
        interval_cases n <;> simp_all
      · rw [Nat.toDigits_of_base_le (by omega) (by omega)]
        have hquot : n / 10 ≠ 0 := by omega
        have hne : Nat.toDigits 10 (n / 10) ≠ [] := Nat.toDigits_ne_nil
        rw [List.head?_append_of_ne_nil _ hne]
        exact ih (n / 10) (by omega) hquot

/-- The shortest decimal of a number above 0 has a digit that is not 0. -/
theorem digits_shortestDecimal_ne_zero {n d : Nat} (hn : n ≠ 0) (hd : d ≠ 0) :
    (shortestDecimal n d).digits ≠ 0 := by
  intro hzero
  unfold shortestDecimal at hzero
  cases hfound : ((List.range 17).flatMap fun i => decimalsOf n d (i + 1)).head? with
  | none => exact hn (by simpa [hfound] using hzero)
  | some decimal =>
      rw [hfound, Option.getD_some] at hzero
      obtain ⟨i, -, hmem⟩ := List.mem_flatMap.mp (List.mem_of_mem_head? hfound)
      have hvalue : decimal.value = .finite (n / d) := by
        simpa using (List.mem_filter.mp hmem).2
      have hdouble : decimal.value = .finite 0 := by
        unfold Decimal.value
        simp [hzero]
      have hquot : (n : ℚ) / d = 0 := by
        rw [hdouble] at hvalue
        exact (Number.finite.inj hvalue).symm
      rcases div_eq_zero_iff.mp hquot with h | h
      · exact hn (by exact_mod_cast h)
      · exact hd (by exact_mod_cast h)

theorem isDigit_of_mem_toDigits {n : Nat} {c : Char} (hc : c ∈ Nat.toDigits 10 n) :
    c.isDigit = true :=
  Nat.isDigit_of_mem_toDigits (by omega) (by omega) hc

theorem valid_layoutDigits {negative : Bool} {digits : List Char} {places : Int}
    (hne : digits ≠ []) (hdigits : ∀ c ∈ digits, c.isDigit = true)
    (hzero : digits.head? ≠ some '0') : (layoutDigits negative digits places).Valid := by
  obtain ⟨c, rest, rfl⟩ := List.exists_cons_of_ne_nil hne
  have hc : c ≠ '0' := fun heq => hzero (by rw [heq]; rfl)
  have hzeros : ∀ {n : Nat} {c : Char}, c ∈ List.replicate n '0' → c.isDigit = true := by
    intro n c hmem
    obtain rfl := (List.mem_replicate.mp hmem).2
    rfl
  unfold layoutDigits
  split_ifs with hexp hsmall
  -- one digit before the point, and an exponent
  · refine ⟨by simp, fun c hc => hdigits c (List.mem_of_mem_take hc), fun hhead => ?_,
      fun c hc => hdigits c (List.mem_of_mem_drop hc), fun e he => ?_, fun e he c hc => ?_⟩
    · exact absurd (Option.some.inj hhead) hc
    · obtain rfl := Option.mem_some_iff.mp he
      exact Nat.toDigits_ne_nil
    · obtain rfl := Option.mem_some_iff.mp he
      exact isDigit_of_mem_toDigits hc
  -- all digits after the point
  · refine ⟨by simp, fun c hc => ?_, fun _ => rfl, fun c hc => ?_, fun _ he => (nomatch he),
      fun _ he => (nomatch he)⟩
    · obtain rfl := List.mem_singleton.mp hc
      rfl
    · rcases List.mem_append.mp hc with hc | hc
      · exact hzeros hc
      · exact hdigits c hc
  · obtain ⟨k, hk⟩ : ∃ k : Nat, places.toNat = k + 1 := ⟨places.toNat - 1, by omega⟩
    rw [hk]
    refine ⟨by simp, fun c hc => ?_, fun hhead => ?_, fun c hc => hdigits c (List.mem_of_mem_drop hc),
      fun _ he => (nomatch he), fun _ he => (nomatch he)⟩
    · rcases List.mem_append.mp hc with hc | hc
      · exact hdigits c (List.mem_of_mem_take hc)
      · exact hzeros hc
    · exact absurd (Option.some.inj hhead) hc

theorem valid_literalOf (q : ℚ) : (literalOf q).Valid := by
  unfold literalOf
  split_ifs with hzero
  · refine ⟨by simp, fun c hc => ?_, fun _ => rfl, fun c hc => (nomatch hc), fun _ he => (nomatch he),
      fun _ he => (nomatch he)⟩
    obtain rfl := List.mem_singleton.mp hc
    rfl
  · dsimp only
    have hdigits := digits_shortestDecimal_ne_zero (Int.natAbs_ne_zero.mpr hzero) q.den_nz
    have hhead := head_toDigits_ne_zero hdigits
    obtain ⟨c, rest, hcons⟩ := List.exists_cons_of_ne_nil
      (Nat.toDigits_ne_nil (n := (shortestDecimal q.num.natAbs q.den).digits) (b := 10))
    have hc : c ≠ '0' := by
      rintro rfl
      rw [hcons] at hhead
      exact hhead rfl
    -- the zeros at the end are cut off, which leaves the first digit
    have hpre := List.rdropWhile_prefix (fun c => decide (c = '0'))
      (Nat.toDigits 10 (shortestDecimal q.num.natAbs q.den).digits)
    have hne : (Nat.toDigits 10 (shortestDecimal q.num.natAbs q.den).digits).rdropWhile
        (fun c => decide (c = '0')) ≠ [] := by
      intro hnil
      have hall := List.rdropWhile_eq_nil_iff.mp hnil c (by rw [hcons]; exact List.mem_cons_self)
      exact hc (of_decide_eq_true hall)
    refine valid_layoutDigits hne (fun c hc => isDigit_of_mem_toDigits (hpre.subset hc)) ?_
    obtain ⟨zeros, happend⟩ := hpre
    rwa [← happend, List.head?_append_of_ne_nil _ hne] at hhead

end ThinkLocal.Js
