import ThinkLocal.Js.Doubles
import ThinkLocal.Js.Text

/-!
# Numbers read from texts

`Number.parseInt(text, 10)`: the value is an integer, rounded to a double, so a value above 0 is at
least 1.  `Number(text)`: the whole text must be a literal; greater integers give greater numbers or the
same one.
-/

namespace ThinkLocal.Js

/-- White space, a sign and digits are read; what follows is ignored. -/
def parseInt (text : String) : Number :=
  let (negative, unsigned) := readSign (text.toList.dropWhile isWhiteSpace)
  let digits := (spanDigits unsigned).1
  if digits = [] then .nan
  else
    match nearestDouble (Nat.ofDigitChars 10 digits 0) 1 with
    | some value => .finite (if negative then -value else value)
    | none => if negative then .negInfinity else .infinity

theorem div_le_roundHalfEven (n d : ℕ) : n / d ≤ roundHalfEven n d := by
  unfold roundHalfEven
  split_ifs
  · exact le_rfl
  · exact Nat.le_succ _

theorem one_le_nearestDouble {n : ℕ} {q : ℚ} (hn : n ≠ 0) (h : nearestDouble n 1 = some q) :
    1 ≤ q := by
  have hplace := lastPlace_spec hn one_ne_zero
  rw [Nat.cast_one, div_one] at hplace
  unfold nearestDouble at h
  rw [if_neg hn] at h
  dsimp only at h
  generalize lastPlace n 1 = e at hplace h
  split_ifs at h
  obtain rfl := Option.some.inj h
  have hround := div_le_roundHalfEven (scaled 2 n 1 (-e)).1 (scaled 2 n 1 (-e)).2
  set m := roundHalfEven (scaled 2 n 1 (-e)).1 (scaled 2 n 1 (-e)).2
  rcases le_total e 0 with he | he
  · -- the number has no places behind the last one
    have hzero : e.toNat = 0 := Int.toNat_of_nonpos he
    have hm : n * 2 ^ (-e).toNat ≤ m := by
      simpa [scaled, hzero] using hround
    calc (1 : ℚ) ≤ n := by exact_mod_cast Nat.one_le_iff_ne_zero.mpr hn
      _ = ((n * 2 ^ (-e).toNat : ℕ) : ℚ) * 2 ^ e := by
          push_cast
          rw [mul_assoc, ← zpow_natCast, ← zpow_add₀ two_ne_zero, Int.toNat_of_nonneg (by omega),
            neg_add_cancel, zpow_zero, mul_one]
      _ ≤ m * 2 ^ e := mul_le_mul_of_nonneg_right (by exact_mod_cast hm) (by positivity)
  · have hlow : 2 ^ 52 * (2 : ℚ) ^ e ≤ n := hplace.le.resolve_left (by omega)
    have hm : 1 ≤ m := by
      have hpow : 2 ^ e.toNat ≤ n := by
        have hcast : ((2 ^ e.toNat : ℕ) : ℚ) = (2 : ℚ) ^ e := by
          rw [Nat.cast_pow, Nat.cast_ofNat, ← zpow_natCast, Int.toNat_of_nonneg he]
        have hle : ((2 ^ e.toNat : ℕ) : ℚ) ≤ n := by
          rw [hcast]
          have hpos : (0 : ℚ) < 2 ^ e := by positivity
          linarith
        exact_mod_cast hle
      have hdiv : 1 ≤ n / 2 ^ e.toNat := (Nat.one_le_div_iff (by positivity)).mpr hpow
      have hzero : (-e).toNat = 0 := Int.toNat_of_nonpos (by omega)
      refine hdiv.trans ?_
      simpa [scaled, hzero] using hround
    have hpow : (1 : ℚ) ≤ 2 ^ e := one_le_zpow₀ one_le_two he
    have hmcast : (1 : ℚ) ≤ m := by exact_mod_cast hm
    nlinarith

/-- A value above 0 is at least 1. -/
theorem one_le_of_parseInt {text : String} {value : ℚ} (h : parseInt text = .finite value)
    (hpos : 0 < value) : 1 ≤ value := by
  unfold parseInt at h
  dsimp only at h
  split at h
  · cases h
  · split at h
    · rename_i m hm
      have hvalue := Number.finite.inj h
      rcases eq_or_ne (Nat.ofDigitChars 10
        (spanDigits (readSign (text.toList.dropWhile isWhiteSpace)).2).1 0) 0 with hn | hn
      · -- no double below 1 but 0 is read
        rw [hn] at hm
        obtain rfl : 0 = m := Option.some.inj hm
        split_ifs at hvalue <;> linarith
      · have hone := one_le_nearestDouble hn hm
        split_ifs at hvalue <;> linarith
    · split_ifs at h

/-! ## `Number(text)` -/

/-- The number that the digits of a natural number denote. -/
def Number.ofNat (n : ℕ) : Number := Decimal.value ⟨false, n, 0⟩

/-- The value of a digit in a base up to 16. -/
def digitOf (c : Char) : Option ℕ :=
  if c.isDigit then some (c.toNat - '0'.toNat)
  else if 'a' ≤ c ∧ c ≤ 'f' then some (c.toNat - 'a'.toNat + 10)
  else if 'A' ≤ c ∧ c ≤ 'F' then some (c.toNat - 'A'.toNat + 10)
  else none

/-- The digits behind `0x`, `0o` or `0b`. -/
def readRadix : List Char → Option ℕ
  | '0' :: c :: digits =>
      let base :=
        if c = 'x' ∨ c = 'X' then 16 else if c = 'o' ∨ c = 'O' then 8
        else if c = 'b' ∨ c = 'B' then 2 else 0
      if digits = [] then none
      else digits.foldlM (fun value c => (digitOf c).bind fun digit =>
        if digit < base then some (value * base + digit) else none) 0
  | _ => none

/-- A decimal literal after its sign. -/
def readDecimal (negative : Bool) (text : List Char) : Option Number :=
  if text = "Infinity".toList then some (if negative then .negInfinity else .infinity)
  else
    let (whole, rest) := spanDigits text
    let (fraction, rest) :=
      match rest with
      | '.' :: rest => spanDigits rest
      | _ => ([], rest)
    if whole = [] ∧ fraction = [] then none
    else
      (readExponent rest).map fun exponent =>
        (Literal.decimal ⟨negative, whole, fraction, exponent⟩).value

/-- `Number(text)`. -/
def toNumber (text : String) : Number :=
  match (trim text).toList with
  | [] => .finite 0
  | chars =>
      match readRadix chars with
      | some n => .ofNat n
      | none => (readDecimal (readSign chars).1 (readSign chars).2).getD .nan

/-- Texts that are not digits only. -/
example : ["0x10", "1e3", "-1", "Infinity", " 7 ", ""].map toNumber =
      [.finite 16, .finite 1000, .finite (-1), .infinity, .finite 7, .finite 0] ∧
    ["-", "1a", "0x", "--1", "1_0"].map toNumber = [.nan, .nan, .nan, .nan, .nan] := by
  decide +kernel

/-! ### Digits -/

/-- Infinite if there are more than 400 digits or no double is large enough. -/
theorem Number.ofNat_eq (n : ℕ) :
    Number.ofNat n = ((if 400 < digitCount n then none else nearestDouble n 1).elim .infinity .finite) := by
  have hscaled : scaled 10 n 1 0 = (n, 1) := by simp [scaled]
  rw [Number.ofNat, Decimal.value]
  by_cases hzero : n = 0
  · subst hzero
    rfl
  · have hlow : ¬ (n = 0 ∨ (digitCount n : ℤ) < -400) := by omega
    simp only [hscaled, add_zero, if_neg hlow]
    by_cases hlarge : 400 < digitCount n
    · have hcast : (400 : ℤ) < digitCount n := by exact_mod_cast hlarge
      simp only [if_pos hlarge, if_pos hcast]
      rfl
    · have hcast : ¬ (400 : ℤ) < digitCount n := by exact_mod_cast hlarge
      simp only [if_neg hlarge, if_neg hcast]
      cases nearestDouble n 1 <;> rfl

theorem digitCount_mono {n n' : ℕ} (h : n ≤ n') : digitCount n ≤ digitCount n' := by
  rcases eq_or_ne n 0 with rfl | hn
  · exact Nat.length_toDigits_pos
  · have hn' : n' ≠ 0 := by omega
    have hplaces := places_digitCount hn
    have hplaces' := places_digitCount hn'
    have hpow : (10 : ℚ) ^ ((digitCount n : ℤ) - 1) < 10 ^ (digitCount n' : ℤ) :=
      calc (10 : ℚ) ^ ((digitCount n : ℤ) - 1) ≤ n := hplaces.le
        _ ≤ n' := by exact_mod_cast h
        _ < 10 ^ (digitCount n' : ℤ) := hplaces'.lt
    have hlt := (zpow_lt_zpow_iff_right₀ (by norm_num : (1 : ℚ) < 10)).mp hpow
    omega

/-- Greater digits denote a greater number or the same one. -/
theorem Number.ofNat_mono {n n' : ℕ} (h : n ≤ n') :
    Number.ofNat n = Number.ofNat n' ∨ (Number.ofNat n).lt (Number.ofNat n') = true := by
  rw [Number.ofNat_eq n, Number.ofNat_eq n']
  have hinfinite (q : Option ℚ) : (q.elim .infinity .finite : Number) = .infinity ∨
      Number.lt (q.elim .infinity .finite) .infinity = true := by
    cases q with
    | none => exact .inl rfl
    | some q => exact .inr rfl
  by_cases hlarge' : 400 < digitCount n'
  · rw [if_pos hlarge']
    exact hinfinite _
  · have hlarge : ¬ 400 < digitCount n := fun hlarge =>
      hlarge' (hlarge.trans_le (digitCount_mono h))
    rw [if_neg hlarge, if_neg hlarge']
    cases hq' : nearestDouble n' 1 with
    | none => exact hinfinite _
    | some q' =>
        obtain ⟨q, hq, hle⟩ := nearestDouble_mono one_ne_zero one_ne_zero
          (by simpa using (Nat.cast_le (α := ℚ)).mpr h) hq'
        rw [hq]
        rcases hle.lt_or_eq with hlt | rfl
        · exact .inr (decide_eq_true hlt)
        · exact .inl rfl

theorem Number.ofNat_ne_nan (n : ℕ) : Number.ofNat n ≠ .nan := by
  rw [Number.ofNat_eq]
  cases (if 400 < digitCount n then none else nearestDouble n 1 : Option ℚ) <;> exact fun h => nomatch h

/-- A natural number up to 2 ^ 53 is denoted exactly. -/
theorem Number.ofNat_eq_finite {n : ℕ} (h : n ≤ 2 ^ 53) : Number.ofNat n = .finite n := by
  have hcount : digitCount n ≤ digitCount (2 ^ 53) := digitCount_mono h
  have hpow : digitCount (2 ^ 53) = 16 := by decide
  rw [Number.ofNat_eq, if_neg (by omega), nearestDouble_natCast h]
  rfl

theorem trim_of_forall_not {text : String} (h : ∀ c ∈ text.toList, isWhiteSpace c = false) :
    trim text = text := by
  have hstart : text.toList.dropWhile isWhiteSpace = text.toList := by
    cases htext : text.toList with
    | nil => rfl
    | cons c rest => rw [List.dropWhile_cons_of_neg (by simp [h c (by simp [htext])])]
  have hend : text.toList.reverse.dropWhile isWhiteSpace = text.toList.reverse := by
    cases htext : text.toList.reverse with
    | nil => rfl
    | cons c rest =>
        rw [List.dropWhile_cons_of_neg (by simp [h c (List.mem_reverse.mp (by simp [htext]))])]
  rw [trim, hstart, hend, List.reverse_reverse, String.ofList_toList]

theorem isWhiteSpace_of_isDigit {c : Char} (h : c.isDigit = true) : isWhiteSpace c = false := by
  rw [Char.isDigit, Bool.and_eq_true, decide_eq_true_eq, decide_eq_true_eq] at h
  have hle : c ≤ '9' := h.2
  rw [Bool.eq_false_iff]
  intro hspace
  rw [isWhiteSpace, Bool.or_eq_true, decide_eq_true_eq, Bool.and_eq_true, decide_eq_true_eq,
    decide_eq_true_eq] at hspace
  rcases hspace with hmem | ⟨hlow, -⟩
  · simp only [List.mem_cons, List.not_mem_nil, or_false] at hmem
    rcases hmem with rfl | rfl | rfl | rfl | rfl | rfl | rfl | rfl | rfl | rfl | rfl | rfl | rfl | rfl
    all_goals first | exact absurd h.1 (by decide) | exact absurd hle (by decide)
  · have hbounds : '\u2000'.val ≤ '9'.val := UInt32.le_trans hlow hle
    exact absurd hbounds (by decide)

/-- Digits are no literal of another base. -/
theorem readRadix_digits {digits : List Char} (h : ∀ c ∈ digits, c.isDigit = true) :
    readRadix digits = none := by
  unfold readRadix
  split
  · rename_i c rest
    have hdigit : c.isDigit = true := h c (by simp)
    have hletter : ∀ l ∈ ['x', 'X', 'o', 'O', 'b', 'B'], c ≠ l := by
      rintro l hl rfl
      simp only [List.mem_cons, List.not_mem_nil, or_false] at hl
      rcases hl with rfl | rfl | rfl | rfl | rfl | rfl <;> cases hdigit
    simp only [List.mem_cons, List.not_mem_nil, or_false, forall_eq_or_imp, forall_eq] at hletter
    simp only [hletter, or_self, if_false]
    split_ifs
    · rfl
    · cases rest with
      | nil => contradiction
      | cons d rest =>
          rw [List.foldlM_cons]
          cases digitOf d <;> rfl
  · rfl

/-- A text of digits denotes its value. -/
theorem toNumber_digits {text : String} (h : ∀ c ∈ text.toList, c.isDigit = true)
    (hne : text ≠ "") : toNumber text = .ofNat (Nat.ofDigitChars 10 text.toList 0) := by
  have hspan : spanDigits text.toList = (text.toList, []) := by
    have happend : spanDigits (text.toList ++ []) = (text.toList, []) :=
      spanDigits_append h (by simp)
    simpa using happend
  have hsign : readSign text.toList = (false, text.toList) := by
    cases htext : text.toList with
    | nil => rfl
    | cons c rest =>
        have hdigit : c.isDigit = true := h c (by simp [htext])
        unfold readSign
        split
        · exact absurd (h '-' (by simp_all)) (by decide)
        · exact absurd (h '+' (by simp_all)) (by decide)
        · rfl
  have hinfinity : text.toList ≠ "Infinity".toList := by
    intro heq
    have hdigit : 'I'.isDigit = true := h 'I' (by rw [heq]; decide)
    cases hdigit
  have hlist : text.toList ≠ [] := fun hnil => hne (String.toList_injective hnil)
  rw [toNumber, trim_of_forall_not fun c hc => isWhiteSpace_of_isDigit (h c hc)]
  split
  · contradiction
  · rw [readRadix_digits h, hsign]
    dsimp only
    rw [readDecimal, if_neg hinfinity, hspan]
    simp [hlist, readExponent, Literal.decimal, Number.ofNat]

theorem toNumber_repr (n : ℕ) : toNumber (Nat.repr n) = .ofNat n := by
  have hdigits : ∀ c ∈ (Nat.repr n).toList, c.isDigit = true := fun c hc =>
    isDigit_of_mem_toDigits (Nat.toList_repr ▸ hc)
  have hne : Nat.repr n ≠ "" := by
    intro hempty
    have hlength : 0 < (Nat.toDigits 10 n).length := Nat.length_toDigits_pos
    rw [← Nat.toList_repr, hempty] at hlength
    exact absurd hlength (by simp)
  rw [toNumber_digits hdigits hne, Nat.toList_repr,
    Nat.ofDigitChars_toDigits (by norm_num) (by norm_num)]

end ThinkLocal.Js
