import Mathlib.Tactic

/-!
# Clocks

What goes by a clock: a loop that asks until a deadline, a bucket that is filled, and a lease that runs out.
-/

/-! ## Asking until there is an answer

A loop asks round after round, and ends in the first round with an answer.  The rounds are over
at times that increase, so one of them is the first that is over when a deadline has passed.
The loop is timely if it goes on only before the deadline.
-/

namespace Foundation.Polling

variable {ρ : Type*}

/-- The answer of the rounds from a given one, where there is one within the fuel. -/
def ask (answer : ℕ → Option ρ) : ℕ → ℕ → Option ρ
  | 0, _ => none
  | fuel + 1, i =>
      match answer i with
      | some r => some r
      | none => ask answer fuel (i + 1)

/-- The first answer comes in this round. -/
structure FirstAnswer (answer : ℕ → Option ρ) (n : ℕ) (r : ρ) : Prop where
  answered : answer n = some r
  earlier : ∀ i < n, answer i = none

/-- The loop ends, and no round from which it goes on is over after the deadline. -/
def Timely (answer : ℕ → Option ρ) (time : ℕ → ℤ) (deadline : ℤ) : Prop :=
  ∃ n r, FirstAnswer answer n r ∧ ∀ i < n, time i < deadline

/-- The first round that is over when the deadline has passed. -/
structure Due (time : ℕ → ℤ) (deadline : ℤ) (n : ℕ) : Prop where
  passed : deadline ≤ time n
  earlier : ∀ i < n, time i < deadline

variable {answer : ℕ → Option ρ} {time : ℕ → ℤ} {deadline : ℤ} {n fuel i : ℕ} {r : ρ}

theorem ask_eq_some_iff :
    ask answer fuel i = some r ↔
      ∃ k < fuel, answer (i + k) = some r ∧ ∀ j < k, answer (i + j) = none := by
  induction fuel generalizing i with
  | zero => simp [ask]
  | succ fuel ih =>
      rw [ask]
      cases hnow : answer i with
      | some r' =>
          -- the first round has the answer
          dsimp only
          constructor
          · intro h
            exact ⟨0, Nat.succ_pos _, by rw [Nat.add_zero, hnow, h], by simp⟩
          · rintro ⟨k, -, hk, hbefore⟩
            cases k with
            | zero => rw [← hk, Nat.add_zero, hnow]
            | succ k =>
                have hnone := hbefore 0 (Nat.succ_pos k)
                rw [Nat.add_zero, hnow] at hnone
                cases hnone
      | none =>
          -- it has none, so the rounds are those that are left, counted from the next one
          dsimp only
          rw [ih]
          constructor
          · rintro ⟨k, hfuel, hk, hbefore⟩
            refine ⟨k + 1, Nat.succ_lt_succ hfuel, by rw [← hk]; congr 1; omega, ?_⟩
            intro j hj
            cases j with
            | zero => exact hnow
            | succ j =>
                have hnone := hbefore j (Nat.lt_of_succ_lt_succ hj)
                rwa [Nat.add_right_comm] at hnone
          · rintro ⟨k, hfuel, hk, hbefore⟩
            cases k with
            | zero =>
                rw [Nat.add_zero, hnow] at hk
                cases hk
            | succ k =>
                refine ⟨k, Nat.lt_of_succ_lt_succ hfuel, by rw [← hk]; congr 1; omega, ?_⟩
                intro j hj
                have hnone := hbefore (j + 1) (Nat.succ_lt_succ hj)
                rwa [← Nat.add_assoc, Nat.add_right_comm] at hnone

/-- The loop ends with an answer exactly if that is the first one. -/
theorem ask_zero_eq_some_iff :
    ask answer fuel 0 = some r ↔ ∃ n < fuel, FirstAnswer answer n r := by
  simp only [ask_eq_some_iff, Nat.zero_add]
  constructor
  · rintro ⟨n, hfuel, hanswer, hbefore⟩
    exact ⟨n, hfuel, hanswer, hbefore⟩
  · rintro ⟨n, hfuel, hanswer, hbefore⟩
    exact ⟨n, hfuel, hanswer, hbefore⟩

theorem exists_firstAnswer (h : ∃ n, (answer n).isSome) :
    ∃ n r, FirstAnswer answer n r ∧ ∀ m, (answer m).isSome → n ≤ m := by
  classical
  obtain ⟨r, hr⟩ := Option.isSome_iff_exists.mp (Nat.find_spec h)
  refine ⟨Nat.find h, r, ⟨hr, ?_⟩, fun m hm => Nat.find_min' h hm⟩
  intro i hi
  exact Option.not_isSome_iff_eq_none.mp (Nat.find_min h hi)

/-! ### Times that increase -/

theorem add_le_time (hclock : ∀ i, time i < time (i + 1)) (n : ℕ) : time 0 + n ≤ time n := by
  induction n with
  | zero => simp
  | succ n ih =>
      have hstep := hclock n
      push_cast
      omega

/-- Some round is the first that is over after the deadline. -/
theorem exists_due (hclock : ∀ i, time i < time (i + 1)) (deadline : ℤ) :
    ∃ n, Due time deadline n := by
  classical
  have hpassed : ∃ n, deadline ≤ time n := by
    refine ⟨(deadline - time 0).toNat, ?_⟩
    have hle := add_le_time hclock (deadline - time 0).toNat
    omega
  refine ⟨Nat.find hpassed, Nat.find_spec hpassed, ?_⟩
  intro i hi
  exact not_le.mp (Nat.find_min hpassed hi)

/-- A timely loop has its answer by the first round that is over after the deadline. -/
theorem timely_iff (hdue : Due time deadline n) :
    Timely answer time deadline ↔ ∃ m ≤ n, (answer m).isSome := by
  constructor
  · rintro ⟨m, r, hfirst, hbefore⟩
    refine ⟨m, ?_, Option.isSome_iff_exists.mpr ⟨r, hfirst.answered⟩⟩
    by_contra hlate
    have hgone := hbefore n (not_le.mp hlate)
    exact absurd hdue.passed (not_le.mpr hgone)
  · rintro ⟨m, hm, hanswer⟩
    obtain ⟨k, r, hfirst, hleast⟩ := exists_firstAnswer ⟨m, hanswer⟩
    refine ⟨k, r, hfirst, ?_⟩
    intro i hi
    exact hdue.earlier i (hi.trans_le ((hleast m hanswer).trans hm))

/-- A timely loop takes no more rounds than the time up to the deadline has units. -/
theorem rounds_le (hclock : ∀ i, time i < time (i + 1)) (hbefore : ∀ i < n, time i < deadline) :
    n ≤ (deadline - time 0).toNat := by
  cases n with
  | zero => exact Nat.zero_le _
  | succ n =>
      have hlast := hbefore n (Nat.lt_succ_self n)
      have hle := add_le_time hclock n
      omega

end Foundation.Polling

/-! ## Token buckets

A bucket holds at most `capacity` tokens and gains at most `rate` of them per unit of time; every
admission takes one.  What was admitted in a window of time is bounded by the capacity and the
gain over the window, however the bucket is kept.
-/

namespace Foundation.TokenBucket

/-- The number of admissions in a window. -/
def countIn (times : List ℚ) (a b : ℚ) : ℕ :=
  times.countP fun t => a ≤ t ∧ t ≤ b

/-- The account of a bucket: what was admitted since any time and what is left together do not
exceed the capacity and the gain since. -/
structure Account (capacity rate : ℚ) (times : List ℚ) (level now : ℚ) : Prop where
  past : ∀ t ∈ times, t ≤ now
  since : ∀ a ≤ now, countIn times a now + level ≤ capacity + rate * (now - a)
  window : ∀ a b, a ≤ b → countIn times a b ≤ capacity + rate * (b - a)

variable {capacity rate level level' now later a b t : ℚ} {times : List ℚ}

@[simp] theorem countIn_nil (a b : ℚ) : countIn [] a b = 0 := rfl

theorem countIn_append (times : List ℚ) (t a b : ℚ) :
    countIn (times ++ [t]) a b = countIn times a b + if a ≤ t ∧ t ≤ b then 1 else 0 := by
  unfold countIn
  rw [List.countP_append, List.countP_singleton]
  simp

/-- Nothing was admitted after the last admission. -/
theorem countIn_eq_zero (hpast : ∀ t ∈ times, t ≤ now) (ha : now < a) : countIn times a b = 0 := by
  refine List.countP_eq_zero.mpr fun t ht => ?_
  have hlt : t < a := (hpast t ht).trans_lt ha
  simp [not_le.mpr hlt]

theorem countIn_eq (hpast : ∀ t ∈ times, t ≤ now) (hb : now ≤ b) :
    countIn times a b = countIn times a now := by
  refine List.countP_congr fun t ht => ?_
  have htnow := hpast t ht
  simp [htnow, htnow.trans hb]

/-- A full bucket without admissions. -/
theorem account_nil (hrate : 0 ≤ rate) (hcapacity : 0 ≤ capacity) (hlevel : level ≤ capacity)
    (now : ℚ) : Account capacity rate [] level now := by
  refine ⟨fun _ h => (nomatch h), fun a ha => ?_, fun a b hab => ?_⟩
  · have hgain : 0 ≤ rate * (now - a) := mul_nonneg hrate (sub_nonneg.mpr ha)
    rw [countIn_nil, Nat.cast_zero]
    linarith
  · have hgain : 0 ≤ rate * (b - a) := mul_nonneg hrate (sub_nonneg.mpr hab)
    rw [countIn_nil, Nat.cast_zero]
    linarith

/-- Time passes, and the bucket gains at most its rate. -/
theorem Account.wait (h : Account capacity rate times level now) (hrate : 0 ≤ rate)
    (hlater : now ≤ later) (hlevel : level' ≤ capacity)
    (hgain : level' ≤ level + rate * (later - now)) :
    Account capacity rate times level' later := by
  refine ⟨fun t ht => (h.past t ht).trans hlater, fun a ha => ?_, h.window⟩
  by_cases hold : a ≤ now
  · have hsince := h.since a hold
    rw [countIn_eq h.past hlater]
    linarith
  · rw [countIn_eq_zero h.past (not_le.mp hold), Nat.cast_zero]
    have hmore : 0 ≤ rate * (later - a) := mul_nonneg hrate (sub_nonneg.mpr ha)
    linarith

/-- An admission takes a token that is there. -/
theorem Account.admit (h : Account capacity rate times level now) (hrate : 0 ≤ rate)
    (hlevel : 1 ≤ level) : Account capacity rate (times ++ [now]) (level - 1) now := by
  refine ⟨fun t ht => ?_, fun a ha => ?_, fun a b hab => ?_⟩
  · rcases List.mem_append.mp ht with hold | hnew
    · exact h.past t hold
    · exact (List.mem_singleton.mp hnew).le
  · have hsince := h.since a ha
    rw [countIn_append, if_pos ⟨ha, le_rfl⟩]
    push_cast
    linarith
  · rw [countIn_append]
    split
    case isTrue hin =>
      -- the window reaches to now, so it is bounded by what was admitted since its start
      have hsince := h.since a hin.1
      have hmono : rate * (now - a) ≤ rate * (b - a) :=
        mul_le_mul_of_nonneg_left (sub_le_sub_right hin.2 a) hrate
      rw [countIn_eq h.past hin.2]
      push_cast
      linarith
    case isFalse => exact_mod_cast h.window a b hab

end Foundation.TokenBucket

/-! ## Leases

A table of leases, each with an owner and a deadline, and the grants that were given out.  As long
as every grant that has not run out is backed by a lease of its owner that lasts at least as long,
no two owners have a grant for the same key.
-/

namespace Foundation

variable {Key Owner Time : Type*} [LinearOrder Time]

structure Lease (Owner Time : Type*) where
  owner : Owner
  deadline : Time

structure Grant (Key Owner Time : Type*) where
  key : Key
  owner : Owner
  deadline : Time
deriving DecidableEq

/-- Every grant that has not run out is backed by the table. -/
def Backed (table : Key → Option (Lease Owner Time)) (now : Time)
    (grants : List (Grant Key Owner Time)) : Prop :=
  ∀ grant ∈ grants, now ≤ grant.deadline → ∃ lease, table grant.key = some lease ∧
    lease.owner = grant.owner ∧ grant.deadline ≤ lease.deadline

/-- No two owners have a grant for one key. -/
def Exclusive (now : Time) (grants : List (Grant Key Owner Time)) : Prop :=
  ∀ grant ∈ grants, ∀ other ∈ grants, grant.key = other.key → now ≤ grant.deadline →
    now ≤ other.deadline → grant.owner = other.owner

variable {table table' : Key → Option (Lease Owner Time)} {now now' : Time}
  {grants : List (Grant Key Owner Time)} {grant : Grant Key Owner Time}

theorem Backed.exclusive (h : Backed table now grants) : Exclusive now grants := by
  intro grant hgrant other hother hkey hlive hlive'
  obtain ⟨lease, hlease, howner, -⟩ := h grant hgrant hlive
  obtain ⟨lease', hlease', howner', -⟩ := h other hother hlive'
  rw [hkey, hlease'] at hlease
  obtain rfl := Option.some.inj hlease
  exact howner.symm.trans howner'

/-- Time goes on. -/
theorem Backed.wait (h : Backed table now grants) (hnow : now ≤ now') : Backed table now' grants :=
  fun grant hgrant hlive => h grant hgrant (hnow.trans hlive)

/-- Leases that have not run out stay with their owner and are not shortened. -/
theorem Backed.of_table (h : Backed table now grants)
    (htable : ∀ key lease, table key = some lease → now ≤ lease.deadline → ∃ lease',
      table' key = some lease' ∧ lease'.owner = lease.owner ∧ lease.deadline ≤ lease'.deadline) :
    Backed table' now grants := by
  intro grant hgrant hlive
  obtain ⟨lease, hlease, howner, hlasts⟩ := h grant hgrant hlive
  obtain ⟨lease', hlease', howner', hlasts'⟩ := htable grant.key lease hlease (hlive.trans hlasts)
  exact ⟨lease', hlease', howner'.trans howner, hlasts.trans hlasts'⟩

/-- A grant is given out for a lease. -/
theorem Backed.cons (h : Backed table now grants) {lease : Lease Owner Time}
    (hlease : table grant.key = some lease) (howner : lease.owner = grant.owner)
    (hlasts : grant.deadline ≤ lease.deadline) : Backed table now (grant :: grants) := by
  refine List.forall_mem_cons.mpr ⟨fun _ => ⟨lease, hlease, howner, hlasts⟩, h⟩

/-- Grants are given back, and only their leases are removed. -/
theorem Backed.giveBack (h : Backed table now grants) (returned : Grant Key Owner Time → Bool)
    (htable : ∀ key lease, table key = some lease → table' key = some lease ∨
      ∀ grant ∈ grants, grant.key = key → grant.owner = lease.owner → returned grant = true) :
    Backed table' now (grants.filter fun grant => ! returned grant) := by
  intro grant hgrant hlive
  obtain ⟨hmem, hkept⟩ := List.mem_filter.mp hgrant
  obtain ⟨lease, hlease, howner, hlasts⟩ := h grant hmem hlive
  rcases htable grant.key lease hlease with hsame | hreturned
  · exact ⟨lease, hsame, howner, hlasts⟩
  · rw [hreturned grant hmem rfl howner.symm] at hkept
    cases hkept

end Foundation
