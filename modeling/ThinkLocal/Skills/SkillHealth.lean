import ThinkLocal.Js.Number

/-!
# The health of one skill

The state machine of `skill-health-monitor.ts`: what one result changes at the entry of a skill.
Beside its fields an entry keeps its history, from which they can be read off.
-/

namespace ThinkLocal.Skills

open Js (Number)

inductive SkillHealthState
  | unknown
  | healthy
  | unhealthy
  deriving DecidableEq, Repr

/-- The thresholds among the options; a partial record is completed with the defaults. -/
structure SkillHealthOpts where
  debounceUp : Number := .ofInt 2
  debounceDown : Number := .ofInt 3
  deriving DecidableEq

structure SkillHealthTransition where
  skillId : String
  src : SkillHealthState
  dst : SkillHealthState
  consecutiveFailures : ℕ
  lastError : Option String
  deriving DecidableEq

/-- What happens to an entry.  The epoch of a check or a transition is the number of starts of the
monitor before it. -/
inductive HealthEvent
  | begun (check epoch : ℕ)
  /-- A result is counted. -/
  | result (check epoch : ℕ) (ok : Bool)
  | transition (epoch : ℕ) (src dst : SkillHealthState)
  deriving DecidableEq

/-- The entry of a skill; the newest event of its history comes first. -/
structure SkillEntry where
  skillId : String
  opts : SkillHealthOpts
  state : SkillHealthState := .unknown
  consecutiveFailures : ℕ := 0
  consecutiveSuccesses : ℕ := 0
  lastError : Option String := none
  stateChanges : ℕ := 0
  inflight : Bool := false
  timer : Option ℕ := none
  abort : Option ℕ := none
  history : List HealthEvent := []
  deriving DecidableEq

/-! ## A result -/

namespace SkillEntry

variable (entry : SkillEntry)

/-- The entry with the result counted. -/
def count (check epoch : ℕ) (ok : Bool) (err : Option String) : SkillEntry :=
  if ok then
    { entry with
      consecutiveSuccesses := entry.consecutiveSuccesses + 1
      consecutiveFailures := 0
      lastError := none
      history := .result check epoch true :: entry.history }
  else
    { entry with
      consecutiveFailures := entry.consecutiveFailures + 1
      consecutiveSuccesses := 0
      lastError := err
      history := .result check epoch false :: entry.history }

def next : Option SkillHealthState :=
  if entry.state ≠ .healthy ∧ entry.opts.debounceUp.le (.ofInt entry.consecutiveSuccesses) then
    some .healthy
  else if entry.state ≠ .unhealthy ∧
      entry.opts.debounceDown.le (.ofInt entry.consecutiveFailures) then
    some .unhealthy
  else none

/-- The change of state that `next` asks for, and what is reported of it. -/
def change (now : ℕ) : SkillEntry × Option SkillHealthTransition :=
  match entry.next with
  | none => (entry, none)
  | some next =>
      if next ≠ entry.state then
        ({ entry with
            state := next
            stateChanges := entry.stateChanges + 1
            history := .transition now entry.state next :: entry.history },
          some ⟨entry.skillId, entry.state, next, entry.consecutiveFailures, entry.lastError⟩)
      else (entry, none)

/-- `applyResult` up to the call of the hook. -/
def applyResult (check epoch now : ℕ) (ok : Bool) (err : Option String) :
    SkillEntry × Option SkillHealthTransition :=
  (entry.count check epoch ok err).change now

end SkillEntry

/-! ## Histories -/

/-- The state that the last transition has led to. -/
def lastState : List HealthEvent → SkillHealthState
  | [] => .unknown
  | .transition _ _ dst :: _ => dst
  | .begun _ _ :: earlier | .result _ _ _ :: earlier => lastState earlier

/-- The counted results with their epochs, the newest first. -/
def results : List HealthEvent → List (ℕ × Bool)
  | [] => []
  | .result _ epoch ok :: earlier => (epoch, ok) :: results earlier
  | .begun _ _ :: earlier | .transition _ _ _ :: earlier => results earlier

/-- The number of equal results at the end of a history. -/
def streak (ok : Bool) (history : List HealthEvent) : ℕ :=
  ((results history).takeWhile fun r => r.2 = ok).length

/-- Do the results before a transition carry it? -/
def Debounced (opts : SkillHealthOpts) (history : List HealthEvent) : SkillHealthState → Prop
  | .healthy => opts.debounceUp.le (.ofInt (streak true history)) = true
  | .unhealthy => opts.debounceDown.le (.ofInt (streak false history)) = true
  | .unknown => False

/-- Every counted result is of the check begun just before it, every transition leaves the state
that the one before has reached, and enough equal results come before it. -/
def HistoryLaw (opts : SkillHealthOpts) : List HealthEvent → Prop
  | [] => True
  | .begun _ _ :: earlier => HistoryLaw opts earlier
  | .result check epoch _ :: earlier =>
      earlier.head? = some (.begun check epoch) ∧ HistoryLaw opts earlier
  | .transition _ src dst :: earlier =>
      src = lastState earlier ∧ Debounced opts earlier dst ∧ HistoryLaw opts earlier

/-- The fields of an entry are what its history says. -/
structure EntryLaw (entry : SkillEntry) : Prop where
  state : entry.state = lastState entry.history
  successes : entry.consecutiveSuccesses = streak true entry.history
  failures : entry.consecutiveFailures = streak false entry.history
  history : HistoryLaw entry.opts entry.history

section Laws

variable {entry : SkillEntry} {check epoch now : ℕ} {history : List HealthEvent}

theorem streak_result_self (check epoch : ℕ) (ok : Bool) (history : List HealthEvent) :
    streak ok (.result check epoch ok :: history) = streak ok history + 1 := by
  simp [streak, results]

theorem streak_result_not (check epoch : ℕ) (ok : Bool) (history : List HealthEvent) :
    streak (!ok) (.result check epoch ok :: history) = 0 := by
  cases ok <;> simp [streak, results]

theorem EntryLaw.begun (h : EntryLaw entry) (check epoch : ℕ) :
    EntryLaw { entry with history := .begun check epoch :: entry.history } :=
  ⟨h.state, h.successes, h.failures, h.history⟩

theorem EntryLaw.count (h : EntryLaw entry)
    (hbegun : entry.history.head? = some (.begun check epoch)) (ok : Bool) (err : Option String) :
    EntryLaw (entry.count check epoch ok err) := by
  cases ok with
  | true =>
      refine ⟨h.state, ?_, ?_, hbegun, h.history⟩
      · exact (congrArg Nat.succ h.successes).trans (streak_result_self _ _ true _).symm
      · exact (streak_result_not check epoch true entry.history).symm
  | false =>
      refine ⟨h.state, ?_, ?_, hbegun, h.history⟩
      · exact (streak_result_not check epoch false entry.history).symm
      · exact (congrArg Nat.succ h.failures).trans (streak_result_self _ _ false _).symm

/-- The counters carry the state that is asked for. -/
theorem EntryLaw.debounced_next (h : EntryLaw entry) {next : SkillHealthState}
    (hnext : entry.next = some next) : Debounced entry.opts entry.history next := by
  unfold SkillEntry.next at hnext
  split_ifs at hnext with hup hdown
  · obtain rfl := Option.some.inj hnext
    rw [Debounced, ← h.successes]
    exact hup.2
  · obtain rfl := Option.some.inj hnext
    rw [Debounced, ← h.failures]
    exact hdown.2

theorem EntryLaw.change (h : EntryLaw entry) (now : ℕ) : EntryLaw (entry.change now).1 := by
  unfold SkillEntry.change
  cases hnext : entry.next with
  | none => exact h
  | some next =>
      dsimp only
      split
      · exact ⟨rfl, h.successes, h.failures, h.state, h.debounced_next hnext, h.history⟩
      · exact h

theorem EntryLaw.applyResult (h : EntryLaw entry)
    (hbegun : entry.history.head? = some (.begun check epoch)) (now : ℕ) (ok : Bool)
    (err : Option String) : EntryLaw (entry.applyResult check epoch now ok err).1 :=
  (h.count hbegun ok err).change now

end Laws

end ThinkLocal.Skills
