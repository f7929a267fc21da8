import ThinkLocal.Js.Decimal

/-!
# Doubles

A rational number is a double when rounding leaves it as it is.  What `String(n)` writes for a
double is read as the same double: a decimal of 17 digits is closer to the number than half of the
step to the next one.  The difference of two doubles is rounded, but its sign is right.
-/

namespace ThinkLocal.Js

/-- The values of the finite numbers. -/
def IsDouble (q : ℚ) : Prop := roundDouble q = .finite q

instance : DecidablePred IsDouble := fun _ => inferInstanceAs (Decidable (_ = _))

abbrev Double := {q : ℚ // IsDouble q}

/-! ## Fractions -/

section Fractions

variable {b n d n' d' : ℕ}

theorem scaled_div (hb : b ≠ 0) (e : ℤ) :
    ((scaled b n d e).1 : ℚ) / (scaled b n d e).2 = n / d * (b : ℚ) ^ e := by
  have hbase : (b : ℚ) ≠ 0 := by exact_mod_cast hb
  unfold scaled
  push_cast
  rw [mul_div_mul_comm, ← zpow_natCast, ← zpow_natCast, ← zpow_sub₀ hbase]
  congr 2
  omega

theorem scaled_pos (hb : b ≠ 0) (hd : d ≠ 0) (e : ℤ) : 0 < (scaled b n d e).2 := by
  unfold scaled
  positivity

/-- Fractions of one value have one integer part. -/
theorem div_eq_of_cross (hd : 0 < d) (hd' : 0 < d') (h : n * d' = n' * d) : n / d = n' / d' := by
  rw [← Nat.mul_div_mul_right n d hd', ← Nat.mul_div_mul_right n' d' hd, h, Nat.mul_comm d]

theorem cross_of_div_eq (hd : 0 < d) (hd' : 0 < d') (h : (n : ℚ) / d = n' / d') :
    n * d' = n' * d := by
  rw [div_eq_div_iff (by positivity) (by positivity)] at h
  exact_mod_cast h

theorem mod_cross (h : n * d' = n' * d) : n % d * d' = n' % d' * d := by
  rw [← Nat.mul_mod_mul_right, ← Nat.mul_mod_mul_right, h, Nat.mul_comm d]

theorem roundHalfEven_congr (hd : 0 < d) (hd' : 0 < d') (h : n * d' = n' * d) :
    roundHalfEven n d = roundHalfEven n' d' := by
  have hmod : 2 * (n % d) * d' = 2 * (n' % d') * d := by
    rw [mul_assoc, mul_assoc, mod_cross h]
  have hlt : 2 * (n % d) < d ↔ 2 * (n' % d') < d' := by
    calc 2 * (n % d) < d ↔ 2 * (n % d) * d' < d * d' := (Nat.mul_lt_mul_right hd').symm
      _ ↔ 2 * (n' % d') * d < d' * d := by rw [hmod, mul_comm d]
      _ ↔ 2 * (n' % d') < d' := Nat.mul_lt_mul_right hd
  have heq : 2 * (n % d) = d ↔ 2 * (n' % d') = d' := by
    calc 2 * (n % d) = d ↔ 2 * (n % d) * d' = d * d' := (Nat.mul_left_inj hd'.ne').symm
      _ ↔ 2 * (n' % d') * d = d' * d := by rw [hmod, mul_comm d]
      _ ↔ 2 * (n' % d') = d' := Nat.mul_left_inj hd.ne'
  simp only [roundHalfEven, hlt, heq, div_eq_of_cross hd hd' h]

theorem roundHalfEven_sub_le (hd : 0 < d) : |(roundHalfEven n d : ℚ) - n / d| ≤ 1 / 2 := by
  have hsplit : (n : ℚ) / d = (n / d : ℕ) + (n % d : ℕ) / (d : ℚ) := by
    have hdiv : (n : ℚ) = d * (n / d : ℕ) + (n % d : ℕ) := by exact_mod_cast (Nat.div_add_mod n d).symm
    field_simp
    exact hdiv
  have hmod : (n % d : ℕ) < d := Nat.mod_lt n hd
  rw [hsplit, roundHalfEven, abs_le]
  split_ifs with h
  · have hle : 2 * (n % d) ≤ d := by omega
    have hhalf : ((n % d : ℕ) : ℚ) / d ≤ 1 / 2 := by
      rw [div_le_div_iff₀ (by positivity) (by norm_num)]
      norm_cast
      omega
    have hnonneg : 0 ≤ ((n % d : ℕ) : ℚ) / d := by positivity
    constructor <;> linarith
  · have hle : d ≤ 2 * (n % d) := by omega
    have hhalf : 1 / 2 ≤ ((n % d : ℕ) : ℚ) / d := by
      rw [div_le_div_iff₀ (by norm_num) (by positivity)]
      norm_cast
      omega
    have hone : ((n % d : ℕ) : ℚ) / d ≤ 1 := by
      rw [div_le_one (by positivity)]
      exact_mod_cast hmod.le
    push_cast
    constructor <;> linarith

/-- The rounded value is the integer that is less than one half away. -/
theorem roundHalfEven_eq {m : ℕ} (hd : 0 < d) (h : |(n : ℚ) / d - m| < 1 / 2) :
    roundHalfEven n d = m := by
  have hle := abs_le.mp (roundHalfEven_sub_le (n := n) hd)
  have hlt := abs_lt.mp h
  have hupper : (roundHalfEven n d : ℚ) < m + 1 := by linarith [hle.2, hlt.2]
  have hlower : (m : ℚ) < roundHalfEven n d + 1 := by linarith [hle.1, hlt.1]
  norm_cast at hupper hlower
  omega

end Fractions

/-! ## The last place of a double -/

/-- The last binary place of the doubles around a positive number. -/
structure LastPlace (x : ℚ) (e : ℤ) : Prop where
  lowest : -1074 ≤ e
  lt : x < 2 ^ 53 * (2 : ℚ) ^ e
  le : e = -1074 ∨ 2 ^ 52 * (2 : ℚ) ^ e ≤ x

section LastPlace

variable {x : ℚ} {e e' : ℤ} {n d : ℕ}

theorem LastPlace.mono {y : ℚ} (h : LastPlace x e) (h' : LastPlace y e') (hxy : x ≤ y) : e ≤ e' := by
  rcases h.le with hlowest | hle
  · exact hlowest.trans_le h'.lowest
  · have hpow : (2 : ℚ) ^ e < 2 ^ (e' + 1) := by
      rw [zpow_add_one₀ two_ne_zero]
      have hlt := (hle.trans hxy).trans_lt h'.lt
      linarith
    have hlt := (zpow_lt_zpow_iff_right₀ one_lt_two).mp hpow
    omega

theorem LastPlace.le_of (h : LastPlace x e) (h' : LastPlace x e') : e ≤ e' := h.mono h' le_rfl

theorem LastPlace.unique (h : LastPlace x e) (h' : LastPlace x e') : e = e' :=
  le_antisymm (h.le_of h') (h'.le_of h)

/-- Below the lowest place all doubles have the lowest one. -/
theorem LastPlace.of_max (hlt : x < 2 ^ 53 * (2 : ℚ) ^ e) (hle : 2 ^ 52 * (2 : ℚ) ^ e ≤ x) :
    LastPlace x (max e (-1074)) := by
  rcases le_total e (-1074) with h | h
  · rw [max_eq_right h]
    refine ⟨le_rfl, hlt.trans_le ?_, .inl rfl⟩
    exact mul_le_mul_of_nonneg_left (zpow_le_zpow_right₀ one_le_two h) (by positivity)
  · rw [max_eq_left h]
    exact ⟨h, hlt, .inr hle⟩

theorem two_pow_log2_bounds (hn : n ≠ 0) :
    (2 : ℚ) ^ (Nat.log2 n : ℤ) ≤ n ∧ (n : ℚ) < 2 ^ (Nat.log2 n : ℤ) * 2 := by
  constructor
  · exact_mod_cast Nat.log2_self_le hn
  · rw [← zpow_add_one₀ two_ne_zero]
    exact_mod_cast Nat.lt_log2_self (n := n)

theorem div_scaled_lt_iff (hd : d ≠ 0) {k : ℕ} :
    (scaled 2 n d (-e)).1 / (scaled 2 n d (-e)).2 < k ↔ (n : ℚ) / d < k * (2 : ℚ) ^ e := by
  have hpos := scaled_pos (n := n) two_ne_zero hd (-e)
  rw [Nat.div_lt_iff_lt_mul hpos, ← Nat.cast_lt (α := ℚ), Nat.cast_mul,
    ← div_lt_iff₀ (by exact_mod_cast hpos), scaled_div two_ne_zero, zpow_neg, Nat.cast_two,
    ← div_eq_mul_inv, div_lt_iff₀ (by positivity)]

theorem lastPlace_spec (hn : n ≠ 0) (hd : d ≠ 0) : LastPlace (n / d) (lastPlace n d) := by
  obtain ⟨hnle, hnlt⟩ := two_pow_log2_bounds hn
  obtain ⟨hdle, hdlt⟩ := two_pow_log2_bounds hd
  have hdpos : (0 : ℚ) < d := by positivity
  set e : ℤ := (Nat.log2 n : ℤ) - Nat.log2 d - 53 with he
  have hpow : 2 ^ 53 * (2 : ℚ) ^ e * 2 ^ (Nat.log2 d : ℤ) = 2 ^ (Nat.log2 n : ℤ) := by
    rw [← zpow_natCast, ← zpow_add₀ two_ne_zero, ← zpow_add₀ two_ne_zero]
    congr 1
    rw [he]
    push_cast
    ring
  have hupper : (n : ℚ) / d < 2 ^ 53 * ((2 : ℚ) ^ e * 2) := by
    rw [div_lt_iff₀ hdpos]
    nlinarith [zpow_pos (two_pos (α := ℚ)) e]
  have hlower : 2 ^ 52 * (2 : ℚ) ^ e ≤ n / d := by
    rw [le_div_iff₀ hdpos]
    nlinarith [zpow_pos (two_pos (α := ℚ)) e]
  have hcond := div_scaled_lt_iff (n := n) (e := e) hd (k := 2 ^ 53)
  push_cast at hcond
  unfold lastPlace
  dsimp only
  rw [← he]
  split_ifs with hlt
  · exact .of_max (hcond.mp hlt) hlower
  · refine .of_max (by rwa [zpow_add_one₀ two_ne_zero]) ?_
    have hge := not_lt.mp (hcond.not.mp hlt)
    rw [zpow_add_one₀ two_ne_zero]
    linarith

end LastPlace

/-! ## The nearest double -/

section Nearest

variable {q : ℚ} {e : ℤ} {m n d n' d' : ℕ}

/-- A number is rounded to the multiple of its last place that is less than one half away. -/
theorem nearestDouble_eq (hn : n ≠ 0) (hd : d ≠ 0) (hplace : LastPlace (n / d) e)
    (hclose : |(n : ℚ) / d - m * (2 : ℚ) ^ e| * 2 < (2 : ℚ) ^ e)
    (hfit : ¬ (971 < e ∨ (e = 971 ∧ m = 2 ^ 53))) :
    nearestDouble n d = some (m * (2 : ℚ) ^ e) := by
  have hround : roundHalfEven (scaled 2 n d (-e)).1 (scaled 2 n d (-e)).2 = m := by
    apply roundHalfEven_eq (scaled_pos two_ne_zero hd (-e))
    have hpos : (0 : ℚ) < (2 : ℚ) ^ e := by positivity
    have hscale : (n : ℚ) / d * ((2 : ℕ) : ℚ) ^ (-e) - m =
        ((n : ℚ) / d - m * (2 : ℚ) ^ e) / (2 : ℚ) ^ e := by
      rw [Nat.cast_two, zpow_neg]
      field_simp
    rw [scaled_div two_ne_zero, hscale, abs_div, abs_of_pos hpos, div_lt_div_iff₀ hpos two_pos,
      one_mul]
    exact hclose
  unfold nearestDouble
  rw [if_neg hn, (lastPlace_spec hn hd).unique hplace]
  dsimp only
  rw [hround, if_neg hfit]

theorem nearestDouble_congr (hd : d ≠ 0) (hd' : d' ≠ 0) (h : (n : ℚ) / d = n' / d') :
    nearestDouble n d = nearestDouble n' d' := by
  have hzero : n = 0 ↔ n' = 0 := by
    have hcross := cross_of_div_eq (Nat.pos_of_ne_zero hd) (Nat.pos_of_ne_zero hd') h
    constructor
    · rintro rfl
      simpa [hd] using hcross.symm
    · rintro rfl
      simpa [hd'] using hcross
  unfold nearestDouble
  by_cases hn : n = 0
  · rw [if_pos hn, if_pos (hzero.mp hn)]
  · have hn' := hzero.not.mp hn
    have hplace : lastPlace n d = lastPlace n' d' :=
      (lastPlace_spec hn hd).unique (h ▸ lastPlace_spec hn' hd')
    have hpos := scaled_pos (n := n) two_ne_zero hd (-lastPlace n d)
    have hpos' := scaled_pos (n := n') two_ne_zero hd' (-lastPlace n d)
    have hscaled := cross_of_div_eq hpos hpos'
      (by rw [scaled_div two_ne_zero, scaled_div two_ne_zero, h])
    rw [if_neg hn, if_neg hn', ← hplace]
    dsimp only
    rw [roundHalfEven_congr hpos hpos' hscaled]

/-- A positive double is a multiple of its last place. -/
structure Mantissa (q : ℚ) (m : ℕ) (e : ℤ) : Prop where
  eq : q = m * (2 : ℚ) ^ e
  place : LastPlace q e
  highest : e ≤ 971

theorem exists_mantissa (hn : n ≠ 0) (hd : d ≠ 0) (h : nearestDouble n d = some ((n : ℚ) / d)) :
    ∃ m e, Mantissa ((n : ℚ) / d) m e := by
  unfold nearestDouble at h
  rw [if_neg hn] at h
  dsimp only at h
  split_ifs at h with hfit
  have heq := (Option.some.inj h).symm
  exact ⟨_, _, heq, lastPlace_spec hn hd, not_lt.mp fun hlt => hfit (.inl hlt)⟩

theorem Mantissa.lt (h : Mantissa q m e) : m < 2 ^ 53 := by
  have hlt := h.place.lt
  rw [h.eq, mul_lt_mul_iff_left₀ (by positivity)] at hlt
  exact_mod_cast hlt

theorem Mantissa.bounds (h : Mantissa q m e) (hq : 0 < q) :
    (2 : ℚ) ^ (-1074 : ℤ) ≤ q ∧ q < 2 ^ (1024 : ℤ) := by
  constructor
  · have hm : (1 : ℚ) ≤ m := by
      have hne : m ≠ 0 := by
        rintro rfl
        rw [h.eq, Nat.cast_zero, zero_mul] at hq
        exact lt_irrefl _ hq
      exact_mod_cast Nat.one_le_iff_ne_zero.mpr hne
    calc (2 : ℚ) ^ (-1074 : ℤ) ≤ 2 ^ e := zpow_le_zpow_right₀ one_le_two h.place.lowest
      _ ≤ m * 2 ^ e := le_mul_of_one_le_left (by positivity) hm
      _ = q := h.eq.symm
  · calc q < 2 ^ 53 * 2 ^ e := h.place.lt
      _ ≤ 2 ^ 53 * 2 ^ (971 : ℤ) :=
          mul_le_mul_of_nonneg_left (zpow_le_zpow_right₀ one_le_two h.highest) (by positivity)
      _ = 2 ^ (1024 : ℤ) := by
          rw [← zpow_natCast, ← zpow_add₀ two_ne_zero]
          rfl

theorem two_zpow_lt_ten_zpow : (2 : ℚ) ^ (1200 : ℤ) < 10 ^ (400 : ℤ) := by
  have height : (2 : ℚ) ^ (1200 : ℕ) = (2 ^ 3) ^ 400 := by rw [← pow_mul]
  have hlt : ((2 : ℚ) ^ 3) ^ 400 < 10 ^ 400 :=
    pow_lt_pow_left₀ (by norm_num) (by norm_num) (by norm_num)
  rw [← height] at hlt
  exact_mod_cast hlt

/-- What differs from a double by less than one part in `2 · 10 ^ 16` is rounded to it. -/
theorem nearestDouble_of_close (hn : n ≠ 0) (hd : d ≠ 0) (h : Mantissa q m e)
    (hclose : |(n : ℚ) / d - q| * (2 * 10 ^ 16) ≤ q) : nearestDouble n d = some q := by
  have hpow : (0 : ℚ) < (2 : ℚ) ^ e := by positivity
  have hm : (m : ℚ) ≤ 2 ^ 53 - 1 := by
    have hlt := Nat.le_sub_one_of_lt h.lt
    have hcast : (m : ℚ) ≤ ((2 ^ 53 - 1 : ℕ) : ℚ) := by exact_mod_cast hlt
    norm_num at hcast ⊢
    exact hcast
  have hq : q ≤ (2 ^ 53 - 1) * (2 : ℚ) ^ e := by
    rw [h.eq]
    exact mul_le_mul_of_nonneg_right hm hpow.le
  have hdiff : |(n : ℚ) / d - q| * 2 < (2 : ℚ) ^ e := by
    norm_num at hclose hq ⊢
    linarith
  have habs := abs_lt.mp (show |(n : ℚ) / d - q| < (2 : ℚ) ^ e / 2 by linarith)
  have hupper : (n : ℚ) / d < 2 ^ 53 * (2 : ℚ) ^ e := by
    norm_num at hq ⊢
    linarith [habs.2]
  by_cases hplace : LastPlace ((n : ℚ) / d) e
  · rw [h.eq] at hdiff ⊢
    refine nearestDouble_eq hn hd hplace hdiff ?_
    rintro (hlt | ⟨-, hfull⟩)
    · exact absurd h.highest (not_le.mpr hlt)
    · exact absurd h.lt (by omega)
  · -- the double is the smallest one of its place, and the number lies in the place below
    have hlowest : e ≠ -1074 := fun he => hplace ⟨he.ge, hupper, .inl he⟩
    have hbelow : (n : ℚ) / d < 2 ^ 52 * (2 : ℚ) ^ e :=
      lt_of_not_ge fun hle => hplace ⟨h.place.lowest, hupper, .inr hle⟩
    have hle := h.place.le.resolve_left hlowest
    have hfull : m = 2 ^ 52 := by
      have hge : 2 ^ 52 ≤ m := by
        rw [h.eq, mul_le_mul_iff_left₀ hpow] at hle
        exact_mod_cast hle
      have hlt : (m : ℚ) < 2 ^ 52 + 1 := by
        rw [← mul_lt_mul_iff_left₀ hpow, ← h.eq]
        linarith [habs.1]
      have hltNat : m < 2 ^ 52 + 1 := by exact_mod_cast hlt
      omega
    have hhalf : (2 : ℚ) ^ e = 2 ^ (e - 1) * 2 := by
      rw [← zpow_add_one₀ two_ne_zero, sub_add_cancel]
    have hqeq : q = ((2 ^ 53 : ℕ) : ℚ) * (2 : ℚ) ^ (e - 1) := by
      rw [h.eq, hfull, hhalf]
      push_cast
      ring
    have hpow' : (0 : ℚ) < (2 : ℚ) ^ (e - 1) := by positivity
    rw [hhalf] at hbelow habs
    rw [hqeq] at hclose habs ⊢
    push_cast at hclose habs
    refine nearestDouble_eq hn hd ⟨?_, ?_, .inr ?_⟩ ?_ ?_
    · have hlow := h.place.lowest
      omega
    · linarith
    · linarith [habs.1]
    · push_cast
      norm_num at hclose ⊢
      linarith
    · have hhigh := h.highest
      omega

end Nearest

/-! ## Decimals -/

/-- The number of places before the point of a positive number. -/
structure Places (x : ℚ) (k : ℤ) : Prop where
  le : (10 : ℚ) ^ (k - 1) ≤ x
  lt : x < (10 : ℚ) ^ k

section Decimals

variable {x q : ℚ} {k k' e : ℤ} {m n d : ℕ}

theorem Places.le_of (h : Places x k) (h' : Places x k') : k ≤ k' := by
  have hlt := (zpow_lt_zpow_iff_right₀ (by norm_num)).mp (h.le.trans_lt h'.lt)
  omega

theorem Places.unique (h : Places x k) (h' : Places x k') : k = k' :=
  le_antisymm (h.le_of h') (h'.le_of h)

theorem places_digitCount (hn : n ≠ 0) : Places n (digitCount n) := by
  have hpos : 0 < digitCount n := Nat.length_toDigits_pos
  constructor
  · obtain ⟨k, hk⟩ : ∃ k, digitCount n = k + 1 := ⟨digitCount n - 1, by omega⟩
    rw [hk, Nat.cast_succ, add_sub_cancel_right]
    rcases Nat.eq_zero_or_pos k with rfl | hk0
    · simpa using Nat.one_le_iff_ne_zero.mpr hn
    · have hlong := (Nat.length_toDigits_le_iff (n := n) (by norm_num : 1 < 10) hk0).not.mp
        (by rw [← digitCount, hk]; omega)
      exact_mod_cast not_lt.mp hlong
  · exact_mod_cast (Nat.length_toDigits_le_iff (n := n) (by norm_num : 1 < 10) hpos).mp le_rfl

theorem scaled_le_iff (hd : d ≠ 0) :
    (scaled 10 n d (-k)).2 ≤ (scaled 10 n d (-k)).1 ↔ (10 : ℚ) ^ k ≤ n / d := by
  have hpos := scaled_pos (n := n) (by norm_num : 10 ≠ 0) hd (-k)
  rw [← Nat.cast_le (α := ℚ), ← one_le_div (by exact_mod_cast hpos), scaled_div (by norm_num),
    zpow_neg, ← div_eq_mul_inv, one_le_div (by positivity)]
  norm_num

theorem placesBefore_spec (hn : n ≠ 0) (hd : d ≠ 0) : Places (n / d) (placesBefore n d) := by
  obtain ⟨hnle, hnlt⟩ := places_digitCount hn
  obtain ⟨hdle, hdlt⟩ := places_digitCount hd
  have hdpos : (0 : ℚ) < d := by positivity
  have hten : (10 : ℚ) ≠ 0 := by norm_num
  set i : ℤ := (digitCount n : ℤ)
  set j : ℤ := (digitCount d : ℤ)
  -- the quotient lies between two powers of ten that are two apart
  have hupper : (n : ℚ) / d < 10 ^ (i - j + 1) := by
    rw [div_lt_iff₀ hdpos]
    calc (n : ℚ) < 10 ^ (i - j + 1) * 10 ^ (j - 1) := by
          rw [← zpow_add₀ hten]
          convert hnlt using 2
          ring
      _ ≤ 10 ^ (i - j + 1) * d := mul_le_mul_of_nonneg_left hdle (by positivity)
  have hlower : (10 : ℚ) ^ (i - j - 1) ≤ n / d := by
    rw [le_div_iff₀ hdpos]
    calc (10 : ℚ) ^ (i - j - 1) * d ≤ 10 ^ (i - j - 1) * 10 ^ j :=
          mul_le_mul_of_nonneg_left hdlt.le (by positivity)
      _ ≤ n := by
          rw [← zpow_add₀ hten]
          convert hnle using 2
          ring
  -- the comparison says which of the two it is next to
  have hcond := scaled_le_iff (n := n) (k := i - j) hd
  unfold placesBefore
  dsimp only
  split_ifs with h
  · refine ⟨?_, hupper⟩
    rw [add_sub_cancel_right]
    exact hcond.mp h
  · exact ⟨hlower, not_le.mp (hcond.not.mp h)⟩

namespace Decimal

/-- The number that a decimal denotes before it is rounded, without its sign. -/
def magnitude (d : Decimal) : ℚ := d.digits * (10 : ℚ) ^ d.exponent

variable {a b : Decimal}

theorem magnitude_ne_zero_iff : a.magnitude ≠ 0 ↔ a.digits ≠ 0 := by
  unfold magnitude
  simp [zpow_ne_zero]

/-- The number of places before the point is the number of digits, moved by the exponent. -/
theorem places_magnitude (h : a.digits ≠ 0) :
    Places a.magnitude (digitCount a.digits + a.exponent) := by
  obtain ⟨hle, hlt⟩ := places_digitCount h
  have hten : (10 : ℚ) ≠ 0 := by norm_num
  constructor
  · rw [add_sub_right_comm, zpow_add₀ hten]
    exact mul_le_mul_of_nonneg_right hle (by positivity)
  · rw [zpow_add₀ hten]
    exact mul_lt_mul_of_pos_right hlt (by positivity)

theorem scaled_magnitude (a : Decimal) :
    ((scaled 10 a.digits 1 a.exponent).1 : ℚ) / (scaled 10 a.digits 1 a.exponent).2 =
      a.magnitude := by
  rw [scaled_div (by norm_num), magnitude]
  norm_num

theorem scaled_digits_ne_zero (h : a.digits ≠ 0) : (scaled 10 a.digits 1 a.exponent).1 ≠ 0 := by
  unfold scaled
  positivity

theorem scaled_den_ne_zero (a : Decimal) : (scaled 10 a.digits 1 a.exponent).2 ≠ 0 :=
  (scaled_pos (by norm_num) one_ne_zero _).ne'

/-- Decimals that denote the same number are rounded to the same number. -/
theorem value_congr (hsign : a.negative = b.negative) (h : a.magnitude = b.magnitude) :
    a.value = b.value := by
  have hzero : a.digits = 0 ↔ b.digits = 0 := by
    rw [← not_iff_not, ← ne_eq, ← ne_eq, ← magnitude_ne_zero_iff, ← magnitude_ne_zero_iff, h]
  unfold value
  by_cases ha : a.digits = 0
  · simp [ha, hzero.mp ha, hsign]
  · have hb := hzero.not.mp ha
    have hsize := (places_magnitude ha).unique (h ▸ places_magnitude hb)
    have hnearest : nearestDouble (scaled 10 a.digits 1 a.exponent).1
        (scaled 10 a.digits 1 a.exponent).2 = nearestDouble (scaled 10 b.digits 1 b.exponent).1
          (scaled 10 b.digits 1 b.exponent).2 :=
      nearestDouble_congr a.scaled_den_ne_zero b.scaled_den_ne_zero
        (by rw [scaled_magnitude, scaled_magnitude, h])
    dsimp only
    simp only [ha, hb, hsize, hsign, hnearest]

theorem value_of_close (ha : a.digits ≠ 0) (hpositive : a.negative = false)
    (h : Mantissa q m e) (hclose : |a.magnitude - q| * (2 * 10 ^ 16) ≤ q) :
    a.value = .finite q := by
  have hne := magnitude_ne_zero_iff.mpr ha
  have hq : 0 < q := by
    have hnonneg : 0 ≤ q := le_trans (by positivity) hclose
    refine hnonneg.lt_of_ne ?_
    rintro rfl
    rw [sub_zero] at hclose
    exact absurd hclose (not_le.mpr (by positivity))
  have habs : |a.magnitude - q| ≤ q / 2 := by
    norm_num at hclose ⊢
    linarith
  obtain ⟨hlower, hupper⟩ := abs_le.mp habs
  obtain ⟨hqlow, hqhigh⟩ := h.bounds hq
  obtain ⟨hple, hplt⟩ := places_magnitude ha
  have hhigh : (digitCount a.digits : ℤ) + a.exponent ≤ 400 := by
    have hpow : (10 : ℚ) ^ ((digitCount a.digits : ℤ) + a.exponent - 1) < 10 ^ (400 : ℤ) := by
      calc (10 : ℚ) ^ ((digitCount a.digits : ℤ) + a.exponent - 1) ≤ a.magnitude := hple
        _ ≤ q * 2 := by linarith
        _ ≤ 2 ^ (1024 : ℤ) * 2 := mul_le_mul_of_nonneg_right hqhigh.le two_pos.le
        _ = 2 ^ (1025 : ℤ) := (zpow_add_one₀ two_ne_zero 1024).symm
        _ ≤ 2 ^ (1200 : ℤ) := zpow_le_zpow_right₀ one_le_two (by norm_num)
        _ < 10 ^ (400 : ℤ) := two_zpow_lt_ten_zpow
    have hlt := (zpow_lt_zpow_iff_right₀ (by norm_num)).mp hpow
    omega
  have hlow : -400 ≤ (digitCount a.digits : ℤ) + a.exponent := by
    have hpow : (10 : ℚ) ^ (-400 : ℤ) < 10 ^ ((digitCount a.digits : ℤ) + a.exponent) := by
      calc (10 : ℚ) ^ (-400 : ℤ) = (10 ^ (400 : ℤ))⁻¹ := zpow_neg 10 400
        _ ≤ (2 ^ (1200 : ℤ))⁻¹ := inv_anti₀ (by positivity) two_zpow_lt_ten_zpow.le
        _ = 2 ^ (-1200 : ℤ) := (zpow_neg 2 1200).symm
        _ ≤ 2 ^ (-1074 - 1 : ℤ) := zpow_le_zpow_right₀ one_le_two (by norm_num)
        _ = 2 ^ (-1074 : ℤ) / 2 := zpow_sub_one₀ two_ne_zero (-1074)
        _ ≤ q / 2 := div_le_div_of_nonneg_right hqlow two_pos.le
        _ ≤ a.magnitude := by linarith
        _ < 10 ^ ((digitCount a.digits : ℤ) + a.exponent) := hplt
    exact ((zpow_lt_zpow_iff_right₀ (by norm_num)).mp hpow).le
  have hnearest := nearestDouble_of_close (scaled_digits_ne_zero ha) a.scaled_den_ne_zero h
    (by rwa [scaled_magnitude])
  unfold value
  dsimp only
  rw [if_neg (not_or.mpr ⟨ha, not_lt.mpr hlow⟩), if_neg (not_lt.mpr hhigh), hnearest, hpositive]
  rfl

end Decimal

/-! ## The shortest decimal -/

/-- The nearest decimal of a number of digits is among the candidates. -/
theorem mem_decimalsOf {count : ℕ} {a : Decimal}
    (ha : a = ⟨false, roundHalfEven (scaled 10 n d (-(placesBefore n d - count))).1
      (scaled 10 n d (-(placesBefore n d - count))).2, placesBefore n d - count⟩)
    (hvalue : a.value = .finite ((n : ℚ) / d)) : a ∈ decimalsOf n d count := by
  unfold decimalsOf
  dsimp only
  refine List.mem_filter.mpr ⟨List.mem_map.mpr ⟨a.digits, ?_, by rw [ha]⟩, decide_eq_true hvalue⟩
  rw [ha]
  dsimp only
  split_ifs with hfloor
  · rw [hfloor]
    exact List.mem_cons_self
  · unfold roundHalfEven at hfloor ⊢
    split_ifs at hfloor ⊢ with h
    · exact absurd rfl hfloor
    · exact List.mem_cons_self

/-- Seventeen digits suffice. -/
theorem exists_mem_decimalsOf (hn : n ≠ 0) (hd : d ≠ 0)
    (h : nearestDouble n d = some ((n : ℚ) / d)) : ∃ a, a ∈ decimalsOf n d 17 := by
  obtain ⟨m, e, hmantissa⟩ := exists_mantissa hn hd h
  obtain ⟨hle, -⟩ := placesBefore_spec hn hd
  have hten : (10 : ℚ) ≠ 0 := by norm_num
  set k : ℤ := placesBefore n d - (17 : ℕ) with hk
  set c := roundHalfEven (scaled 10 n d (-k)).1 (scaled 10 n d (-k)).2 with hc
  have hpow : (0 : ℚ) < (10 : ℚ) ^ k := by positivity
  have hlarge : (10 : ℚ) ^ k * 10 ^ 16 ≤ n / d := by
    rw [← zpow_natCast, ← zpow_add₀ hten]
    convert hle using 2
    rw [hk]
    norm_num
    ring
  have hnear := roundHalfEven_sub_le (n := (scaled 10 n d (-k)).1)
    (scaled_pos (n := n) (by norm_num : 10 ≠ 0) hd (-k))
  rw [scaled_div (by norm_num), ← hc, Nat.cast_ofNat, zpow_neg] at hnear
  have hclose : |(c : ℚ) * 10 ^ k - n / d| * (2 * 10 ^ 16) ≤ n / d := by
    have hscale : (c : ℚ) * 10 ^ k - n / d = (c - n / d * (10 ^ k)⁻¹) * 10 ^ k := by
      field_simp
    rw [hscale, abs_mul, abs_of_pos hpow]
    have hhalf := mul_le_mul_of_nonneg_right hnear hpow.le
    linarith
  have hdigits : c ≠ 0 := by
    intro hzero
    rw [hzero, Nat.cast_zero, zero_mul, zero_sub, abs_neg, abs_of_pos (by positivity)] at hclose
    have hpositive : (0 : ℚ) < n / d := by positivity
    linarith
  exact ⟨⟨false, c, k⟩, mem_decimalsOf rfl (Decimal.value_of_close hdigits rfl hmantissa hclose)⟩

theorem value_shortestDecimal (hn : n ≠ 0) (hd : d ≠ 0)
    (h : nearestDouble n d = some ((n : ℚ) / d)) :
    (shortestDecimal n d).value = .finite ((n : ℚ) / d) := by
  obtain ⟨a, ha⟩ := exists_mem_decimalsOf hn hd h
  have hmem : a ∈ (List.range 17).flatMap fun i => decimalsOf n d (i + 1) :=
    List.mem_flatMap.mpr ⟨16, by simp, ha⟩
  obtain ⟨b, hb⟩ := Option.isSome_iff_exists.mp
    (List.isSome_head?.mpr (List.ne_nil_of_mem hmem))
  unfold shortestDecimal
  rw [hb, Option.getD_some]
  obtain ⟨i, -, hfound⟩ := List.mem_flatMap.mp (List.mem_of_mem_head? hb)
  exact of_decide_eq_true (List.mem_filter.mp hfound).2

end Decimals

/-! ## The literal of a double -/

section Literals

variable {digits : List Char} {places : ℤ} {negative : Bool} {q : ℚ}

theorem negative_layoutDigits : (layoutDigits negative digits places).decimal.negative = negative := by
  unfold layoutDigits
  split_ifs <;> rfl

theorem ofDigitChars_append_zeros (digits : List Char) (k : ℕ) :
    Nat.ofDigitChars 10 (digits ++ List.replicate k '0') 0 =
      10 ^ k * Nat.ofDigitChars 10 digits 0 := by
  rw [Nat.ofDigitChars_append, Nat.ofDigitChars_replicate_zero]

theorem magnitude_layoutDigits (hne : digits ≠ []) :
    (layoutDigits negative digits places).decimal.magnitude =
      Nat.ofDigitChars 10 digits 0 * (10 : ℚ) ^ (places - digits.length) := by
  have hlength : 0 < digits.length := List.length_pos_of_ne_nil hne
  unfold layoutDigits Decimal.magnitude Literal.decimal
  split_ifs with hexp hsmall
  · dsimp only
    rw [List.take_append_drop, List.length_drop, Nat.ofDigitChars_toDigits (by norm_num) (by norm_num)]
    congr 2
    split_ifs with hneg
    · have hlt := of_decide_eq_true hneg
      omega
    · have hle := of_decide_eq_false (Bool.eq_false_iff.mpr hneg)
      omega
  · dsimp only
    have hvalue : Nat.ofDigitChars 10 (['0'] ++ (List.replicate (-places).toNat '0' ++ digits)) 0 =
        Nat.ofDigitChars 10 digits 0 := by
      have hzero : Nat.ofDigitChars 10 ['0'] 0 = 0 := by decide
      rw [Nat.ofDigitChars_append, Nat.ofDigitChars_append, Nat.ofDigitChars_replicate_zero, hzero,
        mul_zero]
    rw [hvalue, List.length_append, List.length_replicate]
    congr 2
    omega
  · dsimp only
    -- the point stands behind the digits or between them
    rcases le_total digits.length places.toNat with hle | hle
    · rw [List.take_of_length_le hle, List.drop_of_length_le hle, List.append_nil,
        ofDigitChars_append_zeros, List.length_nil, Nat.cast_zero, sub_zero, zpow_zero, mul_one]
      have hexponent : places - digits.length = ((places.toNat - digits.length : ℕ) : ℤ) := by omega
      rw [hexponent, zpow_natCast]
      push_cast
      ring
    · rw [Nat.sub_eq_zero_of_le hle, List.replicate_zero, List.append_nil, List.take_append_drop,
        List.length_drop]
      congr 2
      omega

/-- The zeros that are cut off at the end are a factor. -/
theorem ofDigitChars_rdropWhile (digits : List Char) : ∃ k,
    digits.length = (digits.rdropWhile fun c => c = '0').length + k ∧
      Nat.ofDigitChars 10 digits 0 =
        10 ^ k * Nat.ofDigitChars 10 (digits.rdropWhile fun c => c = '0') 0 := by
  induction digits using List.reverseRecOn with
  | nil => exact ⟨0, rfl, rfl⟩
  | append_singleton digits c ih =>
      rw [List.rdropWhile_concat]
      split_ifs with hc
      · obtain rfl := of_decide_eq_true hc
        obtain ⟨k, hlength, hvalue⟩ := ih
        have hzero := ofDigitChars_append_zeros digits 1
        refine ⟨k + 1, by rw [List.length_append, hlength, List.length_singleton, add_assoc], ?_⟩
        rw [List.replicate_one] at hzero
        rw [hzero, hvalue, pow_succ]
        ring
      · exact ⟨0, rfl, by rw [pow_zero, one_mul]⟩

theorem negative_shortestDecimal (n d : ℕ) : (shortestDecimal n d).negative = false := by
  unfold shortestDecimal
  cases hfound : ((List.range 17).flatMap fun i => decimalsOf n d (i + 1)).head? with
  | none => rfl
  | some a =>
      obtain ⟨i, -, hmem⟩ := List.mem_flatMap.mp (List.mem_of_mem_head? hfound)
      obtain ⟨digits, -, rfl⟩ := List.mem_map.mp (List.mem_filter.mp hmem).1
      rfl

/-- The sign does not matter for the rounding. -/
theorem value_signed {a : Decimal} {x : ℚ} (h : a.value = .finite x)
    (hpositive : a.negative = false) (negative : Bool) :
    ({ a with negative := negative } : Decimal).value = .finite (if negative then -x else x) := by
  unfold Decimal.value at h ⊢
  rw [hpositive] at h
  dsimp only at h ⊢
  generalize (if a.digits = 0 ∨ (digitCount a.digits : ℤ) + a.exponent < -400 then some 0
    else if 400 < (digitCount a.digits : ℤ) + a.exponent then none
    else nearestDouble (scaled 10 a.digits 1 a.exponent).1
      (scaled 10 a.digits 1 a.exponent).2 : Option ℚ) = rounded at h ⊢
  cases rounded with
  | none => cases h
  | some r =>
      obtain rfl : r = x := Number.finite.inj h
      rfl

theorem natAbs_num_div_den (q : ℚ) : (q.num.natAbs : ℚ) / q.den = |q| := by
  calc (q.num.natAbs : ℚ) / q.den = |(q.num : ℚ)| / |(q.den : ℚ)| := by
        rw [Nat.cast_natAbs, Int.cast_abs, Nat.abs_cast]
    _ = |q| := by rw [← abs_div, Rat.num_div_den]

/-- The absolute value of a double is its own nearest double. -/
theorem IsDouble.nearestDouble_natAbs (h : IsDouble q) :
    nearestDouble q.num.natAbs q.den = some ((q.num.natAbs : ℚ) / q.den) := by
  rw [natAbs_num_div_den]
  unfold IsDouble roundDouble at h
  split at h
  · next m hm =>
      have hvalue := Number.finite.inj h
      rw [hm]
      split_ifs at hvalue with hneg
      · rw [abs_of_neg hneg, ← hvalue, neg_neg]
      · rw [abs_of_nonneg (not_lt.mp hneg), ← hvalue]
  · split_ifs at h

/-- The layout of the digits of a decimal, without the zeros at the end, denotes the decimal. -/
theorem magnitude_layout {a : Decimal} (ha : a.digits ≠ 0) (negative : Bool) :
    (layoutDigits negative ((Nat.toDigits 10 a.digits).rdropWhile fun c => c = '0')
      ((Nat.toDigits 10 a.digits).length + a.exponent)).decimal.magnitude = a.magnitude := by
  obtain ⟨k, hlength, hvalue⟩ := ofDigitChars_rdropWhile (Nat.toDigits 10 a.digits)
  rw [Nat.ofDigitChars_toDigits (by norm_num) (by norm_num)] at hvalue
  generalize ((Nat.toDigits 10 a.digits).rdropWhile fun c => c = '0') = kept at hlength hvalue ⊢
  have hne : kept ≠ [] := by
    rintro rfl
    rw [Nat.ofDigitChars_nil, mul_zero] at hvalue
    exact ha hvalue
  have hexponent : ((kept.length + k : ℕ) : ℤ) + a.exponent - kept.length = k + a.exponent := by
    push_cast
    ring
  rw [magnitude_layoutDigits hne, hlength, hexponent, zpow_add₀ (by norm_num), zpow_natCast,
    Decimal.magnitude, hvalue]
  push_cast
  ring

/-- The literal of a double denotes the double. -/
theorem value_literalOf (h : IsDouble q) : (literalOf q).decimal.value = .finite q := by
  unfold literalOf
  split_ifs with hzero
  · rw [Rat.zero_of_num_zero hzero]
    rfl
  · have hn : q.num.natAbs ≠ 0 := Int.natAbs_ne_zero.mpr hzero
    have hshortest := value_shortestDecimal hn q.den_nz h.nearestDouble_natAbs
    have hdigits := digits_shortestDecimal_ne_zero hn q.den_nz
    have hpositive := negative_shortestDecimal q.num.natAbs q.den
    have habs := natAbs_num_div_den q
    generalize shortestDecimal q.num.natAbs q.den = a at hshortest hdigits hpositive ⊢
    rw [Decimal.value_congr (b := { a with negative := decide (q < 0) }) negative_layoutDigits
      (magnitude_layout hdigits _), value_signed hshortest hpositive, habs]
    by_cases hneg : q < 0
    · simp [hneg, abs_of_neg hneg]
    · simp [hneg, abs_of_nonneg (not_lt.mp hneg)]

end Literals

/-! ## Integers -/

section Integers

variable {n : ℕ} {e : ℤ}

/-- A natural number with at most 53 binary digits is a multiple of its last place. -/
theorem nearestDouble_natCast (hn : n ≤ 2 ^ 53) : nearestDouble n 1 = some (n : ℚ) := by
  rcases eq_or_ne n 0 with rfl | hne
  · rfl
  rcases eq_or_ne n (2 ^ 53) with rfl | hlt
  · decide +kernel
  have hplace := lastPlace_spec hne one_ne_zero
  rw [Nat.cast_one, div_one] at hplace
  generalize lastPlace n 1 = e at hplace
  -- the last place is at or behind the point
  have hle : e ≤ 0 := by
    rcases hplace.le with rfl | hle
    · norm_num
    · have hpow : (2 : ℚ) ^ 52 * 2 ^ e < 2 ^ 52 * 2 ^ (1 : ℤ) := by
        calc (2 : ℚ) ^ 52 * 2 ^ e ≤ n := hle
          _ < 2 ^ 53 := by exact_mod_cast lt_of_le_of_ne hn hlt
          _ = 2 ^ 52 * 2 ^ (1 : ℤ) := by norm_num
      have hexponent := (zpow_lt_zpow_iff_right₀ one_lt_two).mp
        (lt_of_mul_lt_mul_left hpow (by positivity))
      omega
  have hmultiple : ((n * 2 ^ (-e).toNat : ℕ) : ℚ) * (2 : ℚ) ^ e = n := by
    push_cast
    rw [mul_assoc, ← zpow_natCast, ← zpow_add₀ two_ne_zero, Int.toNat_of_nonneg (by omega),
      neg_add_cancel, zpow_zero, mul_one]
  have hnearest := nearestDouble_eq (m := n * 2 ^ (-e).toNat) hne one_ne_zero
    (by rwa [Nat.cast_one, div_one]) (e := e) (by
      rw [hmultiple, Nat.cast_one, div_one, sub_self, abs_zero, zero_mul]
      positivity) (by omega)
  rwa [hmultiple] at hnearest

theorem roundDouble_intCast {n : ℤ} (h : |n| ≤ 2 ^ 53) : roundDouble n = .finite n := by
  have hnat : n.natAbs ≤ 2 ^ 53 := by
    rw [Int.abs_eq_natAbs] at h
    exact_mod_cast h
  unfold roundDouble
  rw [Rat.num_intCast, Rat.den_intCast, nearestDouble_natCast hnat]
  dsimp only
  congr 1
  rw [Nat.cast_natAbs]
  by_cases hneg : n < 0
  · have hcast : (n : ℚ) < 0 := by exact_mod_cast hneg
    rw [if_pos hcast, abs_of_neg hneg]
    push_cast
    ring
  · have hcast : ¬ (n : ℚ) < 0 := by exact_mod_cast hneg
    rw [if_neg hcast, abs_of_nonneg (not_lt.mp hneg)]

end Integers

/-! ## Order -/

section Monotone

variable {n d n' d' : ℕ} {e : ℤ}

theorem roundHalfEven_mono (hd : 0 < d) (hd' : 0 < d') (h : (n : ℚ) / d ≤ n' / d') :
    roundHalfEven n d ≤ roundHalfEven n' d' := by
  by_contra hlt
  have hstep : (roundHalfEven n' d' : ℚ) + 1 ≤ roundHalfEven n d := by exact_mod_cast not_le.mp hlt
  have hleft := abs_le.mp (roundHalfEven_sub_le (n := n) hd)
  have hright := abs_le.mp (roundHalfEven_sub_le (n := n') hd')
  -- both are one half away, so the fractions are equal
  have heq : (n : ℚ) / d = n' / d' := by linarith [hleft.2, hright.1]
  have hcross : n * d' = n' * d := cross_of_div_eq hd hd' heq
  exact hlt (roundHalfEven_congr hd hd' hcross).le

/-- What is at least a multiple of a power of two is rounded to at least that. -/
theorem le_roundHalfEven_scaled {k : ℕ} (hd : d ≠ 0) (h : k * (2 : ℚ) ^ e ≤ n / d) :
    k ≤ roundHalfEven (scaled 2 n d (-e)).1 (scaled 2 n d (-e)).2 := by
  have hpos := scaled_pos (n := n) two_ne_zero hd (-e)
  have hle : ((k : ℕ) : ℚ) / (1 : ℕ) ≤ ((scaled 2 n d (-e)).1 : ℚ) / (scaled 2 n d (-e)).2 := by
    rw [scaled_div two_ne_zero, Nat.cast_one, div_one, Nat.cast_two, zpow_neg,
      ← div_eq_mul_inv, le_div_iff₀ (by positivity)]
    exact h
  calc k = roundHalfEven k 1 := by simp [roundHalfEven, Nat.mod_one]
    _ ≤ _ := roundHalfEven_mono one_pos hpos hle

theorem roundHalfEven_scaled_le {k : ℕ} (hd : d ≠ 0) (h : (n : ℚ) / d ≤ k * (2 : ℚ) ^ e) :
    roundHalfEven (scaled 2 n d (-e)).1 (scaled 2 n d (-e)).2 ≤ k := by
  have hpos := scaled_pos (n := n) two_ne_zero hd (-e)
  have hle : ((scaled 2 n d (-e)).1 : ℚ) / (scaled 2 n d (-e)).2 ≤ ((k : ℕ) : ℚ) / (1 : ℕ) := by
    rw [scaled_div two_ne_zero, Nat.cast_one, div_one, Nat.cast_two, zpow_neg,
      ← div_eq_mul_inv, div_le_iff₀ (by positivity)]
    exact h
  calc roundHalfEven (scaled 2 n d (-e)).1 (scaled 2 n d (-e)).2
      ≤ roundHalfEven k 1 := roundHalfEven_mono hpos one_pos hle
    _ = k := by simp [roundHalfEven, Nat.mod_one]

/-- Rounding keeps the order: what is above an infinite result is infinite, too. -/
theorem nearestDouble_mono (hd : d ≠ 0) (hd' : d' ≠ 0) (h : (n : ℚ) / d ≤ n' / d') {q' : ℚ}
    (hq' : nearestDouble n' d' = some q') : ∃ q, nearestDouble n d = some q ∧ q ≤ q' := by
  have hdpos : (0 : ℚ) < d := by exact_mod_cast Nat.pos_of_ne_zero hd
  rcases eq_or_ne n 0 with rfl | hn
  · refine ⟨0, rfl, ?_⟩
    unfold nearestDouble at hq'
    split_ifs at hq'
    · exact (Option.some.inj hq').le
    · dsimp only at hq'
      split_ifs at hq'
      rw [← Option.some.inj hq']
      positivity
  have hn' : n' ≠ 0 := by
    rintro rfl
    rw [Nat.cast_zero, zero_div] at h
    have hpos : (0 : ℚ) < n / d := div_pos (by exact_mod_cast Nat.pos_of_ne_zero hn) hdpos
    linarith
  have hplace := lastPlace_spec hn hd
  have hplace' := lastPlace_spec hn' hd'
  have hee : lastPlace n d ≤ lastPlace n' d' := hplace.mono hplace' h
  unfold nearestDouble at hq' ⊢
  rw [if_neg hn'] at hq'
  rw [if_neg hn]
  dsimp only at hq' ⊢
  generalize lastPlace n d = e at hplace hee ⊢
  generalize lastPlace n' d' = e' at hplace' hee hq'
  have hm : roundHalfEven (scaled 2 n d (-e)).1 (scaled 2 n d (-e)).2 ≤ 2 ^ 53 :=
    roundHalfEven_scaled_le hd (by push_cast; exact hplace.lt.le)
  have hm' : roundHalfEven (scaled 2 n' d' (-e')).1 (scaled 2 n' d' (-e')).2 ≤ 2 ^ 53 :=
    roundHalfEven_scaled_le hd' (by push_cast; exact hplace'.lt.le)
  rcases hee.lt_or_eq with hlt | rfl
  · -- a greater last place
    have hlow : 2 ^ 52 ≤ roundHalfEven (scaled 2 n' d' (-e')).1 (scaled 2 n' d' (-e')).2 := by
      refine le_roundHalfEven_scaled hd' ?_
      push_cast
      exact hplace'.le.resolve_left (by have := hplace.lowest; omega)
    split_ifs at hq' with hinfinite
    rw [if_neg (by omega)]
    refine ⟨_, rfl, ?_⟩
    rw [← Option.some.inj hq']
    have hpow : (2 : ℚ) ^ (e + 1) ≤ 2 ^ e' := zpow_le_zpow_right₀ one_le_two (by omega)
    rw [zpow_add_one₀ two_ne_zero] at hpow
    have hleft : ((roundHalfEven (scaled 2 n d (-e)).1 (scaled 2 n d (-e)).2 : ℕ) : ℚ) ≤ 2 ^ 53 := by
      exact_mod_cast hm
    have hright : (2 : ℚ) ^ 52 ≤
        (roundHalfEven (scaled 2 n' d' (-e')).1 (scaled 2 n' d' (-e')).2 : ℕ) := by
      exact_mod_cast hlow
    have hpos : (0 : ℚ) < 2 ^ e := by positivity
    calc ((roundHalfEven (scaled 2 n d (-e)).1 (scaled 2 n d (-e)).2 : ℕ) : ℚ) * 2 ^ e
        ≤ 2 ^ 53 * 2 ^ e := mul_le_mul_of_nonneg_right hleft hpos.le
      _ = 2 ^ 52 * (2 ^ e * 2) := by ring
      _ ≤ 2 ^ 52 * 2 ^ e' := mul_le_mul_of_nonneg_left hpow (by positivity)
      _ ≤ _ := mul_le_mul_of_nonneg_right hright (by positivity)
  · have hmm : roundHalfEven (scaled 2 n d (-e)).1 (scaled 2 n d (-e)).2 ≤
        roundHalfEven (scaled 2 n' d' (-e)).1 (scaled 2 n' d' (-e)).2 := by
      refine roundHalfEven_mono (scaled_pos two_ne_zero hd _) (scaled_pos two_ne_zero hd' _) ?_
      rw [scaled_div two_ne_zero, scaled_div two_ne_zero]
      exact mul_le_mul_of_nonneg_right h (by positivity)
    split_ifs at hq' with hinfinite
    rw [if_neg (by omega)]
    refine ⟨_, rfl, ?_⟩
    rw [← Option.some.inj hq']
    exact mul_le_mul_of_nonneg_right (by exact_mod_cast hmm) (by positivity)

end Monotone

/-! ## Arithmetic -/

namespace Number

/-- `a - b`. -/
def sub : Number → Number → Number
  | finite a, finite b => roundDouble (a - b)
  | infinity, finite _ | infinity, negInfinity | finite _, negInfinity => infinity
  | negInfinity, finite _ | negInfinity, infinity | finite _, infinity => negInfinity
  | _, _ => nan

/-- `a + b`. -/
def add : Number → Number → Number
  | finite a, finite b => roundDouble (a + b)
  | infinity, finite _ | infinity, infinity | finite _, infinity => infinity
  | negInfinity, finite _ | negInfinity, negInfinity | finite _, negInfinity => negInfinity
  | _, _ => nan

/-- Below, at or above zero. -/
def sign : Number → Option SignType
  | nan => none
  | negInfinity => some (-1)
  | finite a => some (SignType.sign a)
  | infinity => some 1

/-- `a * b`; a product with an infinite number is infinite or, with zero, `NaN`. -/
def mul : Number → Number → Number
  | finite a, finite b => roundDouble (a * b)
  | a, b =>
    match a.sign, b.sign with
    | some s, some s' => match s * s' with
      | .pos => infinity
      | .neg => negInfinity
      | .zero => nan
    | _, _ => nan

end Number

/-! ## Signs of differences -/

section Differences

variable {a b q : ℚ} {n d : ℕ}

/-- A double is a multiple of the smallest positive one. -/
theorem IsDouble.exists_multiple (h : IsDouble q) : ∃ k : ℤ, q = k * (2 : ℚ) ^ (-1074 : ℤ) := by
  rcases eq_or_ne q 0 with rfl | hq
  · exact ⟨0, by simp⟩
  · have hn : q.num.natAbs ≠ 0 := Int.natAbs_ne_zero.mpr (Rat.num_ne_zero.mpr hq)
    obtain ⟨m, e, hm⟩ := exists_mantissa hn q.den_nz h.nearestDouble_natAbs
    rw [natAbs_num_div_den] at hm
    obtain ⟨p, hp⟩ := Int.eq_ofNat_of_zero_le (show 0 ≤ e + 1074 by have := hm.place.lowest; omega)
    have habs : |q| = ((m * 2 ^ p : ℕ) : ℤ) * (2 : ℚ) ^ (-1074 : ℤ) := by
      have he : e = p + (-1074) := by omega
      rw [hm.eq, he, zpow_add₀ two_ne_zero, zpow_natCast, ← mul_assoc, Int.cast_natCast,
        Nat.cast_mul, Nat.cast_pow, Nat.cast_ofNat]
    rcases abs_choice q with hsign | hsign
    · exact ⟨_, hsign ▸ habs⟩
    · refine ⟨-((m * 2 ^ p : ℕ) : ℤ), ?_⟩
      rw [Int.cast_neg, neg_mul, ← habs, hsign, neg_neg]

/-- A number that is at least the smallest positive double is not rounded to 0. -/
theorem nearestDouble_pos (hd : d ≠ 0) (h : (2 : ℚ) ^ (-1074 : ℤ) ≤ n / d)
    (hq : nearestDouble n d = some q) : 0 < q := by
  have hsmallest : ((1 : ℕ) : ℚ) / ((2 ^ 1074 : ℕ) : ℚ) = (2 : ℚ) ^ (-1074 : ℤ) := by
    rw [zpow_neg, Nat.cast_one, one_div, Nat.cast_pow, Nat.cast_ofNat, ← zpow_natCast]
    rfl
  have hplace : LastPlace (((1 : ℕ) : ℚ) / ((2 ^ 1074 : ℕ) : ℚ)) (-1074) := by
    refine ⟨le_rfl, ?_, .inl rfl⟩
    rw [hsmallest]
    exact lt_mul_of_one_lt_left (by positivity) (by norm_num)
  have hself : nearestDouble 1 (2 ^ 1074) = some (((1 : ℕ) : ℚ) * 2 ^ (-1074 : ℤ)) := by
    refine nearestDouble_eq one_ne_zero (by positivity) hplace ?_ (by omega)
    rw [hsmallest, Nat.cast_one, one_mul, sub_self, abs_zero, zero_mul]
    positivity
  obtain ⟨r, hr, hle⟩ := nearestDouble_mono (by positivity) hd (hsmallest.trans_le h) hq
  rw [hself] at hr
  rw [← Option.some.inj hr] at hle
  exact lt_of_lt_of_le (by positivity) hle

theorem nearestDouble_nonneg (hq : nearestDouble n d = some q) : 0 ≤ q := by
  unfold nearestDouble at hq
  split_ifs at hq
  · exact (Option.some.inj hq).le
  · dsimp only at hq
    split_ifs at hq
    rw [← Option.some.inj hq]
    positivity

/-- The sign of a difference of doubles is right, though the difference is rounded. -/
theorem Number.sub_le_zero_iff (ha : IsDouble a) (hb : IsDouble b) :
    ((Number.finite a).sub (.finite b)).le (.finite 0) = true ↔ a ≤ b := by
  have hle {x : ℚ} : (Number.finite x).le (.finite 0) = true ↔ x ≤ 0 := by
    rw [Number.le, Bool.or_eq_true, le_iff_lt_or_eq]
    simp [Number.lt]
  rw [Number.sub, roundDouble, ← sub_nonpos]
  -- rounding keeps the sign, and equal doubles differ by zero
  by_cases hneg : a - b < 0
  · simp only [if_pos hneg, hneg.le, iff_true]
    split
    · next q hq => exact hle.mpr (neg_nonpos.mpr (nearestDouble_nonneg hq))
    · rfl
  · simp only [if_neg hneg]
    rcases (not_lt.mp hneg).eq_or_lt with hzero | hpos
    · rw [← hzero]
      exact ⟨fun _ => le_rfl, fun _ => by decide +kernel⟩
    · have hmin : (2 : ℚ) ^ (-1074 : ℤ) ≤ (a - b).num.natAbs / (a - b).den := by
        obtain ⟨k, hk⟩ := ha.exists_multiple
        obtain ⟨l, hl⟩ := hb.exists_multiple
        have hdiff : a - b = ((k - l : ℤ) : ℚ) * (2 : ℚ) ^ (-1074 : ℤ) := by
          rw [hk, hl, Int.cast_sub, sub_mul]
        have hkl : 0 < k - l := by
          rw [hdiff] at hpos
          exact_mod_cast pos_of_mul_pos_left hpos (by positivity)
        have hone : (1 : ℚ) ≤ ((k - l : ℤ) : ℚ) := by exact_mod_cast hkl
        rw [natAbs_num_div_den, abs_of_pos hpos, hdiff]
        exact le_mul_of_one_le_left (by positivity) hone
      refine iff_of_false ?_ (not_le.mpr hpos)
      split
      · next q hq =>
          exact fun h => absurd (hle.mp h) (not_le.mpr (nearestDouble_pos (a - b).den_nz hmin hq))
      · decide

end Differences
end ThinkLocal.Js
