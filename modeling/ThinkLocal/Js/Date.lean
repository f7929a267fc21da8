import Mathlib.Tactic

/-!
# Instants as texts

`Date.prototype.toISOString` for an instant in milliseconds, and the order of such
texts in an SQLite column, which compares them byte by byte.
-/

namespace ThinkLocal.Js

/-- The digits of a number, at least as many as wanted. -/
def padded (width n : Nat) : List Char :=
  let digits := Nat.toDigits 10 n
  List.replicate (width - digits.length) '0' ++ digits

/-- Year, month and day of a day counted from 1970-01-01, in the Gregorian calendar.  Years
begin in March here, so that the leap day is the last of its year. -/
def civilFromDays (day : Int) : Int × Nat × Nat :=
  let shifted := day + 719468
  let era := shifted.fdiv 146097
  let dayOfEra := (shifted.fmod 146097).toNat
  let yearOfEra := (dayOfEra - dayOfEra / 1460 + dayOfEra / 36524 - dayOfEra / 146096) / 365
  let dayOfYear := dayOfEra - (365 * yearOfEra + yearOfEra / 4 - yearOfEra / 100)
  let monthFromMarch := (5 * dayOfYear + 2) / 153
  let dayOfMonth := dayOfYear - (153 * monthFromMarch + 2) / 5 + 1
  let month := if monthFromMarch < 10 then monthFromMarch + 3 else monthFromMarch - 9
  (yearOfEra + era * 400 + (if month ≤ 2 then 1 else 0), month, dayOfMonth)

/-- Four digits; years before 0 and after 9999 have a sign and six digits. -/
def isoYear (year : Int) : List Char :=
  if 0 ≤ year ∧ year ≤ 9999 then padded 4 year.toNat
  else (if year < 0 then '-' else '+') :: padded 6 year.natAbs

/-- `new Date(time).toISOString()`, `none` for an invalid date. -/
def toISOString (time : Int) : Option (List Char) :=
  if time.natAbs ≤ 8640000000000000 then
    let (year, month, day) := civilFromDays (time.fdiv 86400000)
    let ms := (time.fmod 86400000).toNat
    some (isoYear year ++ '-' :: padded 2 month ++ '-' :: padded 2 day ++
      'T' :: padded 2 (ms / 3600000) ++ ':' :: padded 2 (ms / 60000 % 60) ++
      ':' :: padded 2 (ms / 1000 % 60) ++ '.' :: padded 3 (ms % 1000) ++ ['Z'])
  else none

/-- 29 February of a leap century. -/
example : toISOString 951782400123 = some "2000-02-29T00:00:00.123Z".toList := by decide

/-- `a < b` of two texts. -/
def textBefore : List Char → List Char → Bool
  | _, [] => false
  | [], _ :: _ => true
  | a :: as, b :: bs => if a = b then textBefore as bs else a.val < b.val

/-! ## Texts of days

A later day has a later month, or the same month and a later place in it, and within the years
of four digits the text of a date says the same: it comes before another one exactly if its day
does.
-/

section

/-! ### The calendar -/

/-- The year of an era that a day of it belongs to, where years begin in March. -/
def yearOfEra (dayOfEra : Nat) : Nat :=
  (dayOfEra - dayOfEra / 1460 + dayOfEra / 36524 - dayOfEra / 146096) / 365

/-- The days of an era before a year of it. -/
def daysBefore (year : Nat) : Nat := 365 * year + year / 4 - year / 100

def dayOfYear (dayOfEra : Nat) : Nat := dayOfEra - daysBefore (yearOfEra dayOfEra)

/-- The years of a century: the year of a day is found by leaving out the leap days. -/
theorem yearOfEra_of_century {c q s : Nat} (hc : c ≤ 3) (hs : s < 1461)
    (hr : 1461 * q + s < 36524) :
    yearOfEra (36524 * c + 1461 * q + s) = 100 * c + 4 * q + (s - (24 * c + q + s) / 1460) / 365 := by
  have hq : q ≤ 24 := by omega
  have hleap : (36524 * c + 1461 * q + s) / 1460 = 25 * c + q + (24 * c + q + s) / 1460 := by omega
  have hcentury : (36524 * c + 1461 * q + s) / 36524 = c := by omega
  have hera : (36524 * c + 1461 * q + s) / 146096 = 0 := by omega
  rw [yearOfEra, hleap, hcentury, hera]
  have hextra : (24 * c + q + s) / 1460 ≤ 1 := by omega
  omega

theorem exists_century {day : Nat} (h : day < 146096) :
    ∃ c q s, c ≤ 3 ∧ s < 1461 ∧ 1461 * q + s < 36524 ∧ day = 36524 * c + 1461 * q + s :=
  ⟨day / 36524, day % 36524 / 1461, day % 36524 % 1461, by omega, by omega, by omega, by omega⟩

/-- A day is in its year. -/
theorem day_mem_year {day : Nat} (h : day < 146097) :
    yearOfEra day ≤ 399 ∧ daysBefore (yearOfEra day) ≤ day ∧ dayOfYear day ≤ 365 := by
  rw [dayOfYear]
  by_cases hlast : day = 146096
  · subst hlast
    decide
  · have hbefore : day < 146096 := by omega
    obtain ⟨c, q, s, hc, hs, hr, rfl⟩ := exists_century hbefore
    rw [yearOfEra_of_century hc hs hr, daysBefore]
    have hq : q ≤ 24 := by omega
    have hextra : (24 * c + q + s) / 1460 ≤ 1 := by omega
    have hwhole : s = 1460 → (24 * c + q + s) / 1460 = 1 := by omega
    generalize (24 * c + q + s) / 1460 = t at *
    have hy : (s - t) / 365 ≤ 3 := by omega
    have hyear : 365 * ((s - t) / 365) ≤ s - t ∧ s - t < 365 * ((s - t) / 365) + 365 := by omega
    generalize (s - t) / 365 = k at *
    have hfour : (100 * c + 4 * q + k) / 4 = 25 * c + q := by omega
    have hhundred : (100 * c + 4 * q + k) / 100 = c := by omega
    rw [hfour, hhundred]
    omega

theorem yearOfEra_mono {a b : Nat} (hab : a ≤ b) (hb : b < 146097) :
    yearOfEra a ≤ yearOfEra b := by
  refine Nat.div_le_div_right ?_
  induction b, hab using Nat.le_induction with
  | base => exact le_rfl
  | succ b hab ih =>
      have hstep := ih (Nat.lt_of_succ_lt hb)
      omega

/-- The month of a day of the year, counted from March. -/
def monthFromMarch (day : Nat) : Nat := (5 * day + 2) / 153

def dayOfMonth (day : Nat) : Nat := day - (153 * monthFromMarch day + 2) / 5 + 1

theorem month_bounds (day : Nat) :
    (day ≤ 365 → monthFromMarch day ≤ 11) ∧ 1 ≤ dayOfMonth day ∧ dayOfMonth day ≤ 31 := by
  rw [dayOfMonth, monthFromMarch]
  omega

/-- A later day of the year is in a later month or later in the month. -/
theorem month_mono {a b : Nat} (hab : a < b) :
    31 * monthFromMarch a + dayOfMonth a < 31 * monthFromMarch b + dayOfMonth b := by
  have hmonths : monthFromMarch a ≤ monthFromMarch b := Nat.div_le_div_right (by omega)
  rcases hmonths.lt_or_eq with hlater | hsame
  · obtain ⟨-, -, hlast⟩ := month_bounds a
    obtain ⟨-, hfirst, -⟩ := month_bounds b
    omega
  · have hbegun : (153 * monthFromMarch a + 2) / 5 ≤ a := by
      rw [monthFromMarch]
      omega
    rw [dayOfMonth, dayOfMonth, ← hsame]
    omega

/-- The era of a day that is counted from 1970-01-01, and its place in it. -/
def era (day : Int) : Int := (day + 719468).fdiv 146097

def dayOfEra (day : Int) : Nat := ((day + 719468).fmod 146097).toNat

theorem dayOfEra_spec (day : Int) :
    day + 719468 = 146097 * era day + dayOfEra day ∧ dayOfEra day < 146097 := by
  rw [era, dayOfEra, Int.fdiv_eq_ediv_of_nonneg _ (by decide),
    Int.fmod_eq_emod_of_nonneg _ (by decide)]
  omega

/-- A number that is in the order of the dates. -/
def dateKey (date : Int × Nat × Nat) : Int := 31 * (12 * date.1 + date.2.1) + date.2.2

theorem civilFromDays_spec (day : Int) :
    (1 ≤ (civilFromDays day).2.1 ∧ (civilFromDays day).2.1 ≤ 12) ∧
      (1 ≤ (civilFromDays day).2.2 ∧ (civilFromDays day).2.2 ≤ 31) ∧
      dateKey (civilFromDays day) =
        31 * (12 * (yearOfEra (dayOfEra day) + 400 * era day) +
          monthFromMarch (dayOfYear (dayOfEra day)) + 3) + dayOfMonth (dayOfYear (dayOfEra day)) := by
  obtain ⟨-, -, hyear⟩ := day_mem_year (dayOfEra_spec day).2
  obtain ⟨hmonth, hfirst, hlast⟩ := month_bounds (dayOfYear (dayOfEra day))
  have hmonth := hmonth hyear
  have hcivil : civilFromDays day =
      (yearOfEra (dayOfEra day) + era day * 400 +
        (if (if monthFromMarch (dayOfYear (dayOfEra day)) < 10 then
          monthFromMarch (dayOfYear (dayOfEra day)) + 3
        else monthFromMarch (dayOfYear (dayOfEra day)) - 9) ≤ 2 then 1 else 0),
        if monthFromMarch (dayOfYear (dayOfEra day)) < 10 then
          monthFromMarch (dayOfYear (dayOfEra day)) + 3
        else monthFromMarch (dayOfYear (dayOfEra day)) - 9,
        dayOfMonth (dayOfYear (dayOfEra day))) := rfl
  rw [hcivil, dateKey]
  dsimp only
  generalize monthFromMarch (dayOfYear (dayOfEra day)) = mp at *
  generalize dayOfMonth (dayOfYear (dayOfEra day)) = d at *
  split_ifs <;> omega

/-- Later days have later dates. -/
theorem dateKey_strictMono {a b : Int} (hab : a < b) :
    dateKey (civilFromDays a) < dateKey (civilFromDays b) := by
  obtain ⟨ha, hda⟩ := dayOfEra_spec a
  obtain ⟨hb, hdb⟩ := dayOfEra_spec b
  obtain ⟨hya, hba, hra⟩ := day_mem_year hda
  obtain ⟨hyb, hbb, hrb⟩ := day_mem_year hdb
  obtain ⟨hma, hfa, hla⟩ := month_bounds (dayOfYear (dayOfEra a))
  obtain ⟨hmb, hfb, hlb⟩ := month_bounds (dayOfYear (dayOfEra b))
  have hma := hma hra
  have hmb := hmb hrb
  rw [(civilFromDays_spec a).2.2, (civilFromDays_spec b).2.2]
  rcases lt_trichotomy (era a) (era b) with hera | hera | hera
  · omega
  · have hday : dayOfEra a < dayOfEra b := by omega
    rcases (yearOfEra_mono hday.le hdb).lt_or_eq with hyear | hyear
    · omega
    · have hlater : dayOfYear (dayOfEra a) < dayOfYear (dayOfEra b) := by
        rw [dayOfYear, dayOfYear, hyear]
        rw [hyear] at hba
        omega
      have hmonth := month_mono hlater
      rw [hera, hyear]
      omega
  · omega

/-- The year of a day decides before everything else. -/
theorem day_lt_of_year_lt {a b : Int} (h : (civilFromDays a).1 < (civilFromDays b).1) : a < b := by
  obtain ⟨⟨-, hma⟩, ⟨-, hda⟩, -⟩ := civilFromDays_spec a
  obtain ⟨⟨hmb, -⟩, ⟨hdb, -⟩, -⟩ := civilFromDays_spec b
  by_contra hle
  rcases (not_lt.mp hle).lt_or_eq with hlt | rfl
  · have hkey := dateKey_strictMono hlt
    rw [dateKey, dateKey] at hkey
    omega
  · exact lt_irrefl _ h

/-! ### Digits -/

variable {w n m : Nat} {x y : List Char}

theorem padded_succ (hw : 1 ≤ w) :
    padded (w + 1) n = padded w (n / 10) ++ [Nat.digitChar (n % 10)] := by
  unfold padded
  dsimp only
  by_cases hsmall : n < 10
  · rw [Nat.toDigits_of_lt_base hsmall, Nat.div_eq_of_lt hsmall, Nat.mod_eq_of_lt hsmall,
      Nat.toDigits_zero]
    obtain ⟨w, rfl⟩ := Nat.exists_eq_add_of_le' hw
    simp [List.replicate_succ']
  · rw [Nat.toDigits_of_base_le (by decide) (not_lt.mp hsmall)]
    simp

theorem length_padded (hw : 1 ≤ w) (hn : n < 10 ^ w) : (padded w n).length = w := by
  induction w, hw using Nat.le_induction generalizing n with
  | base =>
      have hsmall : n < 10 := by simpa using hn
      simp [padded, Nat.toDigits_of_lt_base hsmall]
  | succ w hw ih =>
      rw [padded_succ hw, List.length_append, ih (by rw [pow_succ] at hn; omega)]
      rfl

theorem digitChar_lt {a b : Nat} (ha : a < 10) (hb : b < 10) :
    (a.digitChar = b.digitChar ↔ a = b) ∧ (a.digitChar.val < b.digitChar.val ↔ a < b) := by
  interval_cases a <;> interval_cases b <;> decide

/-- Numbers of one width are compared as they are. -/
theorem textBefore_padded (hw : 1 ≤ w) (hn : n < 10 ^ w) (hm : m < 10 ^ w) :
    textBefore (padded w n ++ x) (padded w m ++ y) = true ↔
      n < m ∨ n = m ∧ textBefore x y = true := by
  induction w, hw using Nat.le_induction generalizing n m x y with
  | base =>
      have hn : n < 10 := by simpa using hn
      have hm : m < 10 := by simpa using hm
      obtain ⟨heq, hlt⟩ := digitChar_lt hn hm
      have hdigit : ∀ k < 10, padded 1 k = [k.digitChar] := by
        intro k hk
        simp [padded, Nat.toDigits_of_lt_base hk]
      rw [hdigit n hn, hdigit m hm, List.singleton_append, List.singleton_append, textBefore]
      split
      case isTrue hsame =>
        obtain rfl := heq.mp hsame
        simp
      case isFalse hother =>
        rw [heq] at hother
        simp [hlt, hother]
  | succ w hw ih =>
      -- the digits in front decide, and the last one if they are equal
      have hn' : n / 10 < 10 ^ w := by
        rw [pow_succ] at hn
        omega
      have hm' : m / 10 < 10 ^ w := by
        rw [pow_succ] at hm
        omega
      have hndigit : n % 10 < 10 := Nat.mod_lt _ (by decide)
      have hmdigit : m % 10 < 10 := Nat.mod_lt _ (by decide)
      obtain ⟨heq, hlt⟩ := digitChar_lt hndigit hmdigit
      rw [padded_succ hw, padded_succ hw, List.append_assoc, List.append_assoc, ih hn' hm',
        List.singleton_append, List.singleton_append, textBefore]
      split
      case isTrue hsame =>
        have hlast := heq.mp hsame
        have hless : n / 10 < m / 10 ↔ n < m := by omega
        have hequal : n / 10 = m / 10 ↔ n = m := by omega
        rw [hless, hequal]
      case isFalse hother =>
        rw [heq] at hother
        rw [decide_eq_true_iff, hlt]
        omega

theorem isDigit_of_mem_padded {c : Char} (h : c ∈ padded w n) : c.isDigit = true := by
  rcases List.mem_append.mp h with hzero | hdigit
  · obtain rfl := List.eq_of_mem_replicate hzero
    rfl
  · exact Nat.isDigit_of_mem_toDigits (by decide) (by decide) hdigit

theorem le_length_padded : w ≤ (padded w n).length := by
  rw [padded, List.length_append, List.length_replicate]
  omega

/-! ### Texts -/

/-- The day of an instant. -/
def dayOf (time : Int) : Int := time.fdiv 86400000

def yearOf (time : Int) : Int := (civilFromDays (dayOf time)).1

/-- The text of a day. -/
def isoDate (day : Int) : List Char :=
  isoYear (civilFromDays day).1 ++ '-' :: padded 2 (civilFromDays day).2.1 ++
    '-' :: padded 2 (civilFromDays day).2.2

/-- The text of the time of day, to the second. -/
def isoTime (time : Int) : List Char :=
  let ms := (time.fmod 86400000).toNat
  padded 2 (ms / 3600000) ++ ':' :: padded 2 (ms / 60000 % 60) ++ ':' :: padded 2 (ms / 1000 % 60)

theorem dayOf_mono {a b : Int} (hab : a ≤ b) : dayOf a ≤ dayOf b := by
  rw [dayOf, dayOf, Int.fdiv_eq_ediv_of_nonneg _ (by decide),
    Int.fdiv_eq_ediv_of_nonneg _ (by decide)]
  omega

theorem toISOString_eq {time : Int} (h : (toISOString time).isSome) :
    ∃ fraction, toISOString time =
      some (isoDate (dayOf time) ++ 'T' :: (isoTime time ++ fraction)) := by
  unfold toISOString at h ⊢
  split at h
  case isTrue hvalid =>
    refine ⟨'.' :: padded 3 ((time.fmod 86400000).toNat % 1000) ++ ['Z'], ?_⟩
    rw [if_pos hvalid]
    simp [isoDate, isoTime, dayOf]
  case isFalse => cases h

/-- The years of four digits. -/
def FourDigits (year : Int) : Prop := 0 ≤ year ∧ year ≤ 9999

instance (year : Int) : Decidable (FourDigits year) := inferInstanceAs (Decidable (_ ∧ _))

theorem isoYear_of_fourDigits {year : Int} (h : FourDigits year) :
    isoYear year = padded 4 year.toNat ∧ year.toNat < 10 ^ 4 := by
  obtain ⟨hfirst, hlast⟩ := h
  refine ⟨if_pos ⟨hfirst, hlast⟩, ?_⟩
  norm_num
  omega

/-- Within the years of four digits, dates are compared as days. -/
theorem textBefore_isoDate {a b : Int} (ha : FourDigits (civilFromDays a).1)
    (hb : FourDigits (civilFromDays b).1) (x y : List Char) :
    textBefore (isoDate a ++ x) (isoDate b ++ y) = true ↔
      a < b ∨ a = b ∧ textBefore x y = true := by
  obtain ⟨⟨hma, hma'⟩, ⟨hda, hda'⟩, -⟩ := civilFromDays_spec a
  obtain ⟨⟨hmb, hmb'⟩, ⟨hdb, hdb'⟩, -⟩ := civilFromDays_spec b
  obtain ⟨hyearA, hlessA⟩ := isoYear_of_fourDigits ha
  obtain ⟨hyearB, hlessB⟩ := isoYear_of_fourDigits hb
  obtain ⟨hya, -⟩ := ha
  obtain ⟨hyb, -⟩ := hb
  have hdash : ∀ x y, textBefore ('-' :: x) ('-' :: y) = textBefore x y := fun x y => rfl
  rw [isoDate, isoDate, hyearA, hyearB]
  simp only [List.append_assoc, List.cons_append]
  rw [textBefore_padded (by decide) hlessA hlessB, hdash,
    textBefore_padded (by decide) (by norm_num; omega) (by norm_num; omega), hdash,
    textBefore_padded (by decide) (by norm_num; omega) (by norm_num; omega)]
  rcases lt_trichotomy a b with hab | rfl | hab
  · have hkey := dateKey_strictMono hab
    rw [dateKey, dateKey] at hkey
    constructor
    · intro _
      exact .inl hab
    · intro _
      -- a later day has the same or a later year, and so on
      have hyears : (civilFromDays a).1 ≤ (civilFromDays b).1 := by omega
      rcases hyears.lt_or_eq with hyear | hyear
      · left
        omega
      · have hmonths : (civilFromDays a).2.1 ≤ (civilFromDays b).2.1 := by omega
        rw [hyear]
        rcases hmonths.lt_or_eq with hmonth | hmonth
        · exact .inr ⟨rfl, .inl hmonth⟩
        · have hday : (civilFromDays a).2.2 < (civilFromDays b).2.2 := by omega
          exact .inr ⟨rfl, .inr ⟨hmonth, .inl hday⟩⟩
  · simp
  · have hkey := dateKey_strictMono hab
    rw [dateKey, dateKey] at hkey
    constructor
    · rintro (hyear | ⟨hyear, hmonth | ⟨hmonth, hday | ⟨hday, -⟩⟩⟩) <;> omega
    · rintro (hlt | ⟨rfl, -⟩)
      · exact absurd hlt (lt_asymm hab)
      · exact absurd hab (lt_irrefl _)

/-- Other years begin with a sign. -/
theorem isoYear_of_sign {year : Int} (h : ¬ FourDigits year) :
    ∃ sign c₁ c₂ c₃ c₄ rest, isoYear year = sign :: c₁ :: c₂ :: c₃ :: c₄ :: rest ∧
      sign.val < '0'.val ∧ c₄ ≠ '-' := by
  have hlong : 6 ≤ (padded 6 year.natAbs).length := le_length_padded
  have hdigits : ∀ c ∈ padded 6 year.natAbs, c.isDigit = true := fun c => isDigit_of_mem_padded
  rw [FourDigits] at h
  rw [isoYear, if_neg h]
  match padded 6 year.natAbs, hlong, hdigits with
  | c₁ :: c₂ :: c₃ :: c₄ :: rest, _, hdigits =>
      refine ⟨_, c₁, c₂, c₃, c₄, rest, rfl, ?_, ?_⟩
      · split <;> decide
      · rintro rfl
        exact absurd (hdigits '-' (by simp)) (by decide)

theorem textBefore_of_sign {a b : Int} (ha : ¬ FourDigits (civilFromDays a).1)
    (hb : FourDigits (civilFromDays b).1) (x y : List Char) :
    textBefore (isoDate a ++ x) (isoDate b ++ y) = true := by
  obtain ⟨sign, c₁, c₂, c₃, c₄, rest, hyear, hsign, -⟩ := isoYear_of_sign ha
  obtain ⟨hyearB, hlessB⟩ := isoYear_of_fourDigits hb
  have hlength := length_padded (by decide) hlessB
  have hdigits : ∀ c ∈ padded 4 (civilFromDays b).1.toNat, c.isDigit = true :=
    fun c => isDigit_of_mem_padded
  rw [isoDate, isoDate, hyear, hyearB]
  match padded 4 (civilFromDays b).1.toNat, hlength, hdigits with
  | c :: digits, _, hdigits =>
      have hdigit : '0'.val ≤ c.val := by
        have hc := hdigits c List.mem_cons_self
        simp only [Char.isDigit, Bool.and_eq_true, decide_eq_true_eq] at hc
        exact hc.1
      have hless : sign.val < c.val := UInt32.lt_of_lt_of_le hsign hdigit
      have hne : sign ≠ c := by
        rintro rfl
        exact UInt32.lt_irrefl _ hless
      simp only [List.cons_append, textBefore]
      rw [if_neg hne]
      exact decide_eq_true hless

/-! ### Instants -/

theorem yearOf_mono {a b : Int} (hab : a ≤ b) : yearOf a ≤ yearOf b := by
  by_contra hlt
  have hday : dayOf b < dayOf a := day_lt_of_year_lt (not_le.mp hlt)
  exact absurd (dayOf_mono hab) (not_le.mpr hday)

/-- The milliseconds of an instant since its day began. -/
def msOf (time : Int) : Nat := (time.fmod 86400000).toNat

theorem msOf_spec (time : Int) : time = 86400000 * dayOf time + msOf time ∧ msOf time < 86400000 := by
  rw [dayOf, msOf, Int.fdiv_eq_ediv_of_nonneg _ (by decide),
    Int.fmod_eq_emod_of_nonneg _ (by decide)]
  omega

theorem isoTime_eq (time : Int) : isoTime time = padded 2 (msOf time / 3600000) ++
    ':' :: padded 2 (msOf time / 60000 % 60) ++ ':' :: padded 2 (msOf time / 1000 % 60) := rfl

/-- An instant is told by its day and its time. -/
theorem dayOf_msOf_eq (day : Int) {ms : Nat} (h : ms < 86400000) :
    dayOf (86400000 * day + ms) = day ∧ msOf (86400000 * day + ms) = ms := by
  obtain ⟨htime, hms⟩ := msOf_spec (86400000 * day + ms)
  omega

/-- Within the years of four digits, every instant has a text. -/
theorem toISOString_of_fourDigits {time : Int} (h : FourDigits (yearOf time)) :
    toISOString time = some (isoDate (dayOf time) ++
      'T' :: (isoTime time ++ '.' :: (padded 3 (msOf time % 1000) ++ ['Z']))) := by
  have hupper : dayOf time < 100000000 := by
    refine day_lt_of_year_lt (lt_of_le_of_lt h.2 ?_)
    decide
  have hlower : -100000000 < dayOf time := by
    refine day_lt_of_year_lt (lt_of_lt_of_le ?_ h.1)
    decide
  obtain ⟨htime, hms⟩ := msOf_spec time
  have hvalid : time.natAbs ≤ 8640000000000000 := by omega
  rw [toISOString, if_pos hvalid]
  simp [isoDate, isoTime, dayOf, msOf]

/-- Within the years of four digits, the texts of instants are compared as instants. -/
theorem textBefore_toISOString {a b : Int} (ha : FourDigits (yearOf a)) (hb : FourDigits (yearOf b))
    {x y : List Char} (hx : toISOString a = some x) (hy : toISOString b = some y) :
    textBefore x y = true ↔ a < b := by
  rw [toISOString_of_fourDigits ha] at hx
  rw [toISOString_of_fourDigits hb] at hy
  obtain rfl := Option.some.inj hx
  obtain rfl := Option.some.inj hy
  obtain ⟨htimeA, hmsA⟩ := msOf_spec a
  obtain ⟨htimeB, hmsB⟩ := msOf_spec b
  have hskip : ∀ (c : Char) x y, textBefore (c :: x) (c :: y) = textBefore x y := by
    intro c x y
    rw [textBefore, if_pos rfl]
  rw [textBefore_isoDate ha hb, isoTime_eq, isoTime_eq]
  generalize msOf a = m at *
  generalize msOf b = n at *
  simp only [List.append_assoc, List.cons_append, hskip]
  rw [textBefore_padded (by decide) (by norm_num; omega) (by norm_num; omega), hskip,
    textBefore_padded (by decide) (by norm_num; omega) (by norm_num; omega), hskip,
    textBefore_padded (by decide) (by norm_num; omega) (by norm_num; omega), hskip,
    textBefore_padded (by decide) (by norm_num; omega) (by norm_num; omega)]
  have hend : textBefore ['Z'] ['Z'] = false := rfl
  rw [hend]
  simp only [Bool.false_eq_true, and_false, or_false]
  omega

end

/-! ## Timestamps

The texts of ISO 8601 that denote instants: a date, a time of day to the minute, the second or a
fraction of it, and a zone.  The text of a timestamp to the millisecond in UTC is the one that
`toISOString` writes for its instant.
-/

inductive Zone
  | utc
  /-- Ahead of UTC or behind it. -/
  | offset (ahead : Bool) (hours : Fin 24) (minutes : Fin 60)
deriving DecidableEq

namespace Zone

def text : Zone → List Char
  | utc => ['Z']
  | offset ahead hours minutes =>
      (if ahead then '+' else '-') :: padded 2 hours ++ ':' :: padded 2 minutes

/-- What the zone is ahead, in milliseconds. -/
def ahead : Zone → ℤ
  | utc => 0
  | offset ahead hours minutes => (if ahead then 1 else -1) * (hours * 3600000 + minutes * 60000)

end Zone

/-- A date, a time of day and a zone, with the digits of the fraction of the second if there is a
second. -/
structure Timestamp where
  day : Int
  hour : Fin 24
  minute : Fin 60
  second : Option (Fin 60 × List (Fin 10))
  zone : Zone
deriving DecidableEq

namespace Timestamp

/-- Seconds as a text. -/
def secondText : Option (Fin 60 × List (Fin 10)) → List Char
  | none => []
  | some (second, []) => ':' :: padded 2 second
  | some (second, digits) => ':' :: padded 2 second ++ '.' :: digits.map fun d => d.val.digitChar

def text (t : Timestamp) : String :=
  String.ofList (isoDate t.day ++ 'T' :: (padded 2 t.hour ++ ':' :: (padded 2 t.minute ++
    (secondText t.second ++ t.zone.text))))

/-- The value of digits after a point. -/
def fraction (digits : List (Fin 10)) : ℚ := digits.foldr (fun d rest => ((d.val : ℚ) + rest) / 10) 0

/-- The instant in milliseconds since 1970-01-01 in UTC. -/
def instant (t : Timestamp) : ℚ :=
  t.day * 86400000 + t.hour.val * 3600000 + t.minute.val * 60000 +
    (match t.second with
      | none => 0
      | some (second, digits) => second.val * 1000 + fraction digits * 1000) - t.zone.ahead

/-- To the millisecond, in UTC and in a year of four digits. -/
def Plain (t : Timestamp) : Prop :=
  t.zone = .utc ∧ FourDigits (civilFromDays t.day).1 ∧
    (t.second.map fun second => second.2.length) = some 3

variable {t : Timestamp}

theorem padded_three (a b c : Fin 10) :
    padded 3 (100 * a + 10 * b + c) = [a.val.digitChar, b.val.digitChar, c.val.digitChar] := by
  have hone : ∀ n < 10, padded 1 n = [n.digitChar] := by
    intro n hn
    simp [padded, Nat.toDigits_of_lt_base hn]
  have hlast : (100 * a.val + 10 * b + c) % 10 = c := by omega
  have hmiddle : (100 * a.val + 10 * b + c) / 10 % 10 = b := by omega
  have hfirst : (100 * a.val + 10 * b + c) / 10 / 10 = a := by omega
  rw [padded_succ (by decide), padded_succ (by decide), hlast, hmiddle, hfirst, hone a a.isLt]
  rfl

/-- A plain timestamp is the text that is written for its instant. -/
theorem Plain.exists_instant (h : t.Plain) :
    ∃ time : ℤ, t.instant = time ∧ FourDigits (yearOf time) ∧
      toISOString time = some t.text.toList := by
  obtain ⟨day, hour, minute, second, zone⟩ := t
  obtain ⟨rfl, hyear, hsecond⟩ := h
  dsimp only at hyear hsecond
  obtain ⟨⟨second, digits⟩, rfl, hlength⟩ := Option.map_eq_some_iff.mp hsecond
  match digits, hlength with
  | [a, b, c], _ =>
    obtain ⟨ms, hms⟩ : ∃ ms : ℕ, ms = hour.val * 3600000 + minute.val * 60000 +
        second.val * 1000 + (100 * a.val + 10 * b + c) := ⟨_, rfl⟩
    have hless : ms < 86400000 := by omega
    obtain ⟨hday, htime⟩ := dayOf_msOf_eq day hless
    refine ⟨86400000 * day + ms, ?_, by rwa [yearOf, hday], ?_⟩
    · simp only [instant, fraction, List.foldr_cons, List.foldr_nil, Zone.ahead, hms]
      push_cast
      ring
    · have hhour : ms / 3600000 = hour := by omega
      have hminute : ms / 60000 % 60 = minute := by omega
      have hseconds : ms / 1000 % 60 = second := by omega
      have hdigits : ms % 1000 = 100 * a.val + 10 * b + c := by omega
      rw [toISOString_of_fourDigits (by rwa [yearOf, hday]), isoTime_eq, hday, htime, hhour, hminute,
        hseconds, hdigits, padded_three]
      simp [text, secondText, Zone.text]

end Timestamp

/-- An hour and a half before noon, told ahead of UTC. -/
example : (Timestamp.mk 20454 12 30 none (.offset true 2 0)).text = "2026-01-01T12:30+02:00" := by
  decide

end ThinkLocal.Js
