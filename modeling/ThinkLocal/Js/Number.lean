import Mathlib.Tactic

/-!
# Numbers

The values that a floating point number can take, and the comparisons of them.  The
program compares such a number from outside only with differences of clock readings, which
are exact.
-/

namespace ThinkLocal.Js

inductive Number
  | nan
  | negInfinity
  | finite (value : ℚ)
  | infinity
deriving DecidableEq

namespace Number

def ofInt (n : Int) : Number := finite n

/-- `a < b`; nothing is less or greater than `NaN`. -/
def lt : Number → Number → Bool
  | finite a, finite b => a < b
  | negInfinity, finite _ | negInfinity, infinity | finite _, infinity => true
  | _, _ => false

/-- `a <= b`. -/
def le (a b : Number) : Bool := a.lt b || (a = b && a ≠ nan)

variable {a b : Int} {x : Number}

/-- What is above a number is above every smaller one. -/
theorem ofInt_lt_of_le (hab : a ≤ b) (h : (ofInt b).lt x = true) : (ofInt a).lt x = true := by
  cases x with
  | nan | negInfinity => cases h
  | infinity => rfl
  | finite value =>
      have hb : (b : ℚ) < value := of_decide_eq_true h
      have ha : (a : ℚ) ≤ b := by exact_mod_cast hab
      exact decide_eq_true (ha.trans_lt hb)

/-- A number that is not below an integer is above every smaller one. -/
theorem ofInt_lt_of_not_lt (hx : x ≠ nan) (hab : a < b) (h : x.lt (ofInt b) = false) :
    (ofInt a).lt x = true := by
  cases x with
  | nan => exact absurd rfl hx
  | negInfinity => cases h
  | infinity => rfl
  | finite value =>
      have hb : (b : ℚ) ≤ value := not_lt.mp (of_decide_eq_false h)
      have ha : (a : ℚ) < b := by exact_mod_cast hab
      exact decide_eq_true (ha.trans_le hb)

/-- A number above another is not at most it. -/
theorem le_eq_false_of_lt {x y : Number} (h : x.lt y = true) : y.le x = false := by
  cases x <;> cases y
  case finite.finite a b =>
    have hab : a < b := of_decide_eq_true h
    have hnot : ¬ b < a := not_lt.mpr hab.le
    have hne : finite b ≠ finite a := fun hba => hab.ne' (finite.inj hba)
    simp only [le, lt, hnot, hne, decide_false, Bool.false_or, Bool.false_and]
  all_goals first | rfl | cases h

/-- What is at most an integer is at most every greater one. -/
theorem le_ofInt_of_le (hab : a ≤ b) (h : x.le (ofInt a) = true) : x.le (ofInt b) = true := by
  cases x with
  | nan | infinity => cases h
  | negInfinity => rfl
  | finite value =>
      have hab' : (a : ℚ) ≤ b := by exact_mod_cast hab
      have hvalue : value ≤ a := by
        rcases (Bool.or_eq_true _ _).mp h with hlt | heq
        · exact (of_decide_eq_true hlt).le
        · exact (finite.inj (of_decide_eq_true ((Bool.and_eq_true _ _).mp heq).1)).le
      rcases (hvalue.trans hab').lt_or_eq with hlt | heq
      · exact (Bool.or_eq_true _ _).mpr (.inl (decide_eq_true hlt))
      · refine (Bool.or_eq_true _ _).mpr (.inr ((Bool.and_eq_true _ _).mpr ?_))
        exact ⟨decide_eq_true (congrArg finite heq), rfl⟩

end Number

end ThinkLocal.Js
