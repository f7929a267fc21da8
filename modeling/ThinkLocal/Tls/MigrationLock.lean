import ThinkLocal.Foundation.Clocks
import ThinkLocal.Js.Decimal

/-!
# Waiting for the migration lock

`acquireMigrationLock` of `tls.ts` creates the lock file exclusively, round after round.  Three
ways lead to another round: the lock was stale and is unlinked, looking at it threw, or it is
held and the loop sleeps.  Only the last one comes after the test of the deadline.
-/

namespace ThinkLocal.Tls

open Foundation Js

structure LockOptions where
  staleMs : ℤ
  timeoutMs : ℤ
  pollMs : Option ℤ := none

/-- What the system answers in one round, and the clock. -/
structure LockRound where
  /-- The descriptor of `openSync(lockPath, 'wx')`, or the code of the error. -/
  create : Except String Nat
  /-- The `mtimeMs` of `statSync(lockPath)`, unless that throws. -/
  stat : Option ℚ
  /-- The clock behind `statSync`. -/
  statTime : ℤ
  /-- `unlinkSync(lockPath)` does not throw. -/
  unlinks : Bool
  /-- The clock at the end of the round. -/
  time : ℤ

/-- How a round ends. -/
inductive RoundEnd
  | returns (fd : Option Nat)
  /-- The `continue` behind `unlinkSync`. -/
  | stolen
  /-- The `continue` in the `catch`. -/
  | vanished
  | sleeps (ms : ℤ)
deriving DecidableEq

namespace LockRound

variable (opts : LockOptions) (deadline : ℤ) (r : LockRound)

/-- `Date.now() - st.mtimeMs > opts.staleMs`. -/
def isStale (mtimeMs : ℚ) : Bool :=
  (Number.ofInt opts.staleMs).lt (roundDouble (r.statTime - mtimeMs))

/-- One round of the loop. -/
def finish : RoundEnd :=
  match r.create with
  | .ok fd => .returns (some fd)
  | .error code =>
      if code ≠ "EEXIST" then .returns none
      else
        match r.stat with
        | none => .vanished
        | some mtimeMs =>
            if r.isStale opts mtimeMs then if r.unlinks then .stolen else .vanished
            else if deadline ≤ r.time then .returns none
            else .sleeps (min (opts.pollMs.getD 50) opts.timeoutMs)

end LockRound

/-- What the loop returns at the end of a round. -/
def RoundEnd.answer : RoundEnd → Option (Option Nat)
  | returns fd => some fd
  | stolen | vanished | sleeps _ => none

/-- The rounds that the loop meets, with a clock that advances at every step. -/
structure LockRun where
  /-- The clock that the deadline is counted from. -/
  start : ℤ
  rounds : ℕ → LockRound
  start_lt : start < (rounds 0).statTime
  statTime_lt : ∀ i, (rounds i).statTime < (rounds i).time
  time_lt : ∀ i, (rounds i).time < (rounds (i + 1)).statTime

namespace LockRun

variable (run : LockRun) (opts : LockOptions)

def deadline : ℤ := run.start + opts.timeoutMs

def time (i : ℕ) : ℤ := (run.rounds i).time

def answer (i : ℕ) : Option (Option Nat) :=
  ((run.rounds i).finish opts (run.deadline opts)).answer

end LockRun

/-- What the loop has returned after a number of rounds: a descriptor, `some none` for `null`, or
nothing yet. -/
def acquireMigrationLock (run : LockRun) (opts : LockOptions) (rounds : ℕ) : Option (Option Nat) :=
  Polling.ask (run.answer opts) rounds 0

/-- The loop returns, and no round from which it goes on is over after the deadline. -/
def ReturnsInTime (run : LockRun) (opts : LockOptions) : Prop :=
  ∃ n fd, acquireMigrationLock run opts (n + 1) = some fd ∧
    ∀ i < n, run.time i < run.deadline opts

/-- By the first round that is over when the deadline has passed, the lock file could be created
or creating it has failed otherwise; or this round finds a lock that is not stale. -/
def LockSeenAtDeadline (run : LockRun) (opts : LockOptions) : Prop :=
  ∀ n, Polling.Due run.time (run.deadline opts) n →
    (∃ m ≤ n, (run.rounds m).create ≠ .error "EEXIST") ∨
      ∃ mtimeMs, (run.rounds n).stat = some mtimeMs ∧ (run.rounds n).isStale opts mtimeMs = false

variable {run : LockRun} {opts : LockOptions} {n : ℕ}

theorem LockRun.clock (run : LockRun) (i : ℕ) : run.time i < run.time (i + 1) :=
  (run.time_lt i).trans (run.statTime_lt (i + 1))

theorem LockRun.start_lt_time (run : LockRun) : run.start < run.time 0 :=
  run.start_lt.trans (run.statTime_lt 0)

/-! ## One round -/

/-- A round whose lock file exists returns exactly if it finds a lock that is not stale, after
the deadline. -/
theorem answer_isSome_iff :
    (run.answer opts n).isSome ↔
      (run.rounds n).create ≠ .error "EEXIST" ∨
        (∃ mtimeMs, (run.rounds n).stat = some mtimeMs ∧
          (run.rounds n).isStale opts mtimeMs = false) ∧ run.deadline opts ≤ run.time n := by
  unfold LockRun.answer LockRound.finish LockRun.time
  cases hcreate : (run.rounds n).create with
  | ok fd => simp [RoundEnd.answer]
  | error code =>
      dsimp only
      by_cases hcode : code = "EEXIST"
      · subst hcode
        rw [if_neg (not_not.mpr rfl)]
        cases hstat : (run.rounds n).stat with
        | none => simp [RoundEnd.answer]
        | some mtimeMs =>
            dsimp only
            -- a stale lock is taken away before the deadline is looked at
            by_cases hstale : (run.rounds n).isStale opts mtimeMs = true
            · rw [if_pos hstale]
              cases (run.rounds n).unlinks <;> simp [RoundEnd.answer, hstale]
            · rw [if_neg hstale]
              split <;> simp_all [RoundEnd.answer]
      · rw [if_pos hcode]
        simp [RoundEnd.answer, hcode]

/-! ## The loop -/

theorem returnsInTime_iff_timely :
    ReturnsInTime run opts ↔ Polling.Timely (run.answer opts) run.time (run.deadline opts) := by
  constructor
  · rintro ⟨n, fd, hreturns, hbefore⟩
    obtain ⟨m, hm, hfirst⟩ := Polling.ask_zero_eq_some_iff.mp hreturns
    exact ⟨m, fd, hfirst, fun i hi => hbefore i (hi.trans_le (Nat.le_of_lt_succ hm))⟩
  · rintro ⟨n, fd, hfirst, hbefore⟩
    exact ⟨n, fd, Polling.ask_zero_eq_some_iff.mpr ⟨n, Nat.lt_succ_self n, hfirst⟩, hbefore⟩

theorem returnsInTime_iff : ReturnsInTime run opts ↔ LockSeenAtDeadline run opts := by
  rw [returnsInTime_iff_timely]
  constructor
  · intro htimely n hdue
    obtain ⟨m, hm, hanswer⟩ := (Polling.timely_iff hdue).mp htimely
    rcases answer_isSome_iff.mp hanswer with hcreate | ⟨hseen, hpassed⟩
    · exact .inl ⟨m, hm, hcreate⟩
    · -- the deadline test only returns in the round that is due
      have hlast : m = n := by
        by_contra hother
        have hgone := hdue.earlier m (lt_of_le_of_ne hm hother)
        exact absurd hpassed (not_le.mpr hgone)
      subst hlast
      exact .inr hseen
  · intro hcondition
    obtain ⟨n, hdue⟩ := Polling.exists_due run.clock (run.deadline opts)
    refine (Polling.timely_iff hdue).mpr ?_
    rcases hcondition n hdue with ⟨m, hm, hcreate⟩ | hseen
    · exact ⟨m, hm, answer_isSome_iff.mpr (.inl hcreate)⟩
    · exact ⟨n, le_rfl, answer_isSome_iff.mpr (.inr ⟨hseen, hdue.passed⟩)⟩

/-- A loop that returns in time has done so after as many rounds as the timeout has units. -/
theorem acquired_of_returnsInTime (h : ReturnsInTime run opts) :
    ∃ fd, acquireMigrationLock run opts (opts.timeoutMs.toNat + 1) = some fd := by
  obtain ⟨n, fd, hfirst, hbefore⟩ := returnsInTime_iff_timely.mp h
  have hrounds := Polling.rounds_le run.clock hbefore
  have hstart := run.start_lt_time
  refine ⟨fd, Polling.ask_zero_eq_some_iff.mpr ⟨n, ?_, hfirst⟩⟩
  rw [LockRun.deadline] at hrounds
  omega

/-- The loop returns within its deadline exactly if the lock is seen there; then the units of the
timeout bound its rounds. -/
theorem migrationLock_in_time_iff (run : LockRun) (opts : LockOptions) :
    (ReturnsInTime run opts ↔ LockSeenAtDeadline run opts) ∧
      (ReturnsInTime run opts →
        ∃ fd, acquireMigrationLock run opts (opts.timeoutMs.toNat + 1) = some fd) :=
  ⟨returnsInTime_iff, acquired_of_returnsInTime⟩

/-- The lock path is a dangling symbolic link: it exists, and cannot be looked at. -/
def danglingLink : LockRun where
  start := 0
  rounds i :=
    { create := .error "EEXIST", stat := none, statTime := 2 * i + 1, unlinks := true
      time := 2 * i + 2 }
  start_lt := by decide
  statTime_lt i := by simp
  time_lt i := by
    push_cast
    omega

/-- The loop never returns. -/
theorem danglingLink_never_returns :
    (∀ rounds, acquireMigrationLock danglingLink ⟨60000, 10000, none⟩ rounds = none) ∧
      ¬ ReturnsInTime danglingLink ⟨60000, 10000, none⟩ := by
  have hnever : ∀ rounds,
      acquireMigrationLock danglingLink ⟨60000, 10000, none⟩ rounds = none := by
    intro rounds
    cases hanswer : acquireMigrationLock danglingLink ⟨60000, 10000, none⟩ rounds with
    | none => rfl
    | some fd =>
        obtain ⟨n, -, hfirst⟩ := Polling.ask_zero_eq_some_iff.mp hanswer
        cases hfirst.answered
  refine ⟨hnever, ?_⟩
  rintro ⟨n, fd, hreturns, -⟩
  rw [hnever] at hreturns
  cases hreturns

end ThinkLocal.Tls
