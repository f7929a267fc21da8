import ThinkLocal.Foundation.Arena
import ThinkLocal.Foundation.InsertionMap
import ThinkLocal.Foundation.Machine
import ThinkLocal.Skills.SkillHealth

/-!
# The skill health monitor

`SkillHealthMonitor` of `skill-health-monitor.ts`.  Entries, timers and checks are objects that
outlive their place in the monitor: a replaced entry is still known to its check in flight.  When
a timer fires and how long a check takes is left open, so the intervals are not modelled.
-/

namespace ThinkLocal.Skills

open Foundation

/-! ## The monitor -/

/-- A check in flight. -/
structure HealthCheck where
  entry : ℕ
  epoch : ℕ
  aborted : Bool
  deriving DecidableEq

/-- How a check function settles.  What it throws may have no text `String(e)`. -/
inductive CheckOutcome
  | resolved (ok : Bool)
  | rejected (text : Option String)

/-- The monitor, with the objects it has made and the number of its starts. -/
structure SkillHealthMonitor where
  skills : InsertionMap String ℕ := .empty
  started : Bool := false
  stopped : Bool := false
  entries : Arena SkillEntry := .empty
  timers : Arena ℕ := .empty
  checks : Arena HealthCheck := .empty
  starts : ℕ := 0

def clearTimeout (timers : Arena ℕ) : Option ℕ → Arena ℕ
  | none => timers
  | some t => timers.free t

/-- `abort` of the controller that an entry holds. -/
def abortCheck (checks : Arena HealthCheck) : Option ℕ → Arena HealthCheck
  | none => checks
  | some i => checks.modify i fun c => { c with aborted := true }

namespace SkillHealthMonitor

variable (s : SkillHealthMonitor)

def scheduleNext (e : ℕ) : SkillHealthMonitor :=
  if s.stopped then s
  else match s.entries.get e with
    | none => s
    | some entry =>
        let timers := clearTimeout s.timers entry.timer
        { s with
          timers := timers.alloc e
          entries := s.entries.modify e fun x => { x with timer := some timers.next } }

/-- What `register` does to the entry that it replaces. -/
def drop (existing : SkillEntry) : SkillHealthMonitor :=
  { s with
    timers := clearTimeout s.timers existing.timer
    checks := abortCheck s.checks existing.abort }

/-- The new entry in its place. -/
def insert (skillId : String) (opts : SkillHealthOpts) : SkillHealthMonitor :=
  { s with
    entries := s.entries.alloc { skillId := skillId, opts := opts }
    skills := s.skills.set skillId s.entries.next }

def register (skillId : String) (opts : SkillHealthOpts) : SkillHealthMonitor :=
  let dropped := match (s.skills.get skillId).bind s.entries.get with
    | none => s
    | some existing => s.drop existing
  let inserted := dropped.insert skillId opts
  if s.started && !s.stopped then inserted.scheduleNext dropped.entries.next else inserted

def start : SkillHealthMonitor :=
  if s.started then s
  else s.skills.values.foldl scheduleNext
    { s with started := true, stopped := false, starts := s.starts + 1 }

def stopEntry (e : ℕ) : SkillHealthMonitor :=
  match s.entries.get e with
  | none => s
  | some entry =>
      { s with
        timers := clearTimeout s.timers entry.timer
        checks := abortCheck s.checks entry.abort
        entries := s.entries.modify e fun x => { x with timer := none } }

def stop : SkillHealthMonitor :=
  s.skills.values.foldl stopEntry { s with stopped := true, started := false }

end SkillHealthMonitor

/-- A call from outside or from the hook. -/
inductive MonitorCall
  | register (skillId : String) (opts : SkillHealthOpts)
  | start
  | stop

def MonitorCall.run (s : SkillHealthMonitor) : MonitorCall → SkillHealthMonitor
  | register skillId opts => s.register skillId opts
  | start => s.start
  | stop => s.stop

namespace SkillHealthMonitor

variable (s : SkillHealthMonitor)

/-- `runCheck` up to its `await`. -/
def runCheck (e : ℕ) : SkillHealthMonitor :=
  match s.entries.get e with
  | none => s
  | some entry =>
      if s.stopped || entry.inflight then s
      else
        { s with
          checks := s.checks.alloc ⟨e, s.starts, false⟩
          entries := s.entries.modify e fun x =>
            { x with
              inflight := true
              abort := some s.checks.next
              history := .begun s.checks.next s.starts :: x.history } }

/-- The check is over. -/
def release (i e : ℕ) : SkillHealthMonitor :=
  { s with
    checks := s.checks.free i
    entries := s.entries.modify e fun x => { x with inflight := false, abort := none } }

/-- The result of a check, with the text of the failure. -/
def resultOf (aborted : Bool) : CheckOutcome → Bool × Option String
  | .resolved true => (true, none)
  | .resolved false =>
      (false, some (if aborted then "timeout" else "health check returned false"))
  | .rejected text => (false, text)

/-- A result of an entry is counted; the hook runs if there is a transition. -/
def applyResult (i e epoch : ℕ) (entry : SkillEntry) (ok : Bool) (err : Option String)
    (hook : List MonitorCall) : SkillHealthMonitor :=
  let (entry, transition) := entry.applyResult i epoch s.starts ok err
  let applied := { s with entries := s.entries.modify e fun _ => entry }
  match transition with
  | none => applied
  | some _ => hook.foldl MonitorCall.run applied

/-- `runCheck` after its `await`.  What has no text leaves it from the `catch`. -/
def settle (i : ℕ) (check : HealthCheck) (outcome : CheckOutcome) (hook : List MonitorCall) :
    SkillHealthMonitor :=
  let released := s.release i check.entry
  match outcome, released.entries.get check.entry with
  | .rejected none, _ | _, none => released
  | outcome, some entry =>
      if released.stopped = true ∨ released.skills.get entry.skillId ≠ some check.entry then released
      else
        let (ok, err) := resultOf check.aborted outcome
        (released.applyResult i check.entry check.epoch entry ok err hook).scheduleNext check.entry

end SkillHealthMonitor

inductive MonitorAction
  | call (call : MonitorCall)
  /-- A timer of an entry fires. -/
  | fire (t : ℕ)
  /-- The time for a check is over. -/
  | timeout (i : ℕ)
  /-- A check settles; the calls are those of the hook, if it runs. -/
  | settle (i : ℕ) (outcome : CheckOutcome) (hook : List MonitorCall)

def monitorMachine : Machine SkillHealthMonitor MonitorAction where
  init := {}
  step s
    | .call call => some (call.run s)
    | .fire t => (s.timers.get t).map fun e => { s with timers := s.timers.free t }.runCheck e
    | .timeout i => (s.checks.get i).map fun _ =>
        { s with checks := abortCheck s.checks (some i) }
    | .settle i outcome hook => (s.checks.get i).map fun check => s.settle i check outcome hook

/-! ## The law of the monitor -/

/-- What the monitor owes in a state. -/
structure MonitorLaw (s : SkillHealthMonitor) : Prop where
  /-- Transitions form a chain and follow enough results of checks of the entry. -/
  histories : ∀ e entry, s.entries.get e = some entry → HistoryLaw entry.opts entry.history
  /-- One check of an entry at a time. -/
  single : ∀ i j c d, s.checks.get i = some c → s.checks.get j = some d → c.entry = d.entry → i = j
  /-- A result is counted for the entry that is registered under its skill, and not while the
  monitor is stopped. -/
  counted : ∀ action s', monitorMachine.step s action = some s' →
    ∀ e entry entry', s.entries.get e = some entry → s'.entries.get e = some entry' →
      results entry'.history ≠ results entry.history →
      s.stopped = false ∧ s.skills.get entry.skillId = some e

/-! ## Steps that leave entries and checks as they are -/

/-- An entry without its references. -/
def SkillEntry.core (entry : SkillEntry) : SkillEntry := { entry with timer := none, abort := none }

def HealthCheck.key (check : HealthCheck) : HealthCheck := { check with aborted := false }

namespace SkillHealthMonitor

def view (s : SkillHealthMonitor) (e : ℕ) : Option SkillEntry :=
  (s.entries.get e).map SkillEntry.core

def flight (s : SkillHealthMonitor) (i : ℕ) : Option HealthCheck :=
  (s.checks.get i).map HealthCheck.key

end SkillHealthMonitor

/-- Entries are only added, and the checks in flight stay. -/
structure Quiet (s s' : SkillHealthMonitor) : Prop where
  view : ∀ e, s'.view e = s.view e ∨
    s.view e = none ∧ ∃ skillId opts, s'.view e = some { skillId := skillId, opts := opts }
  flight : ∀ i, s'.flight i = s.flight i

section Laws

variable {s s' s'' : SkillHealthMonitor} {e i : ℕ}

theorem Quiet.refl (s : SkillHealthMonitor) : Quiet s s := ⟨fun _ => .inl rfl, fun _ => rfl⟩

theorem Quiet.trans (h : Quiet s s') (h' : Quiet s' s'') : Quiet s s'' := by
  refine ⟨fun e => ?_, fun i => (h'.flight i).trans (h.flight i)⟩
  rcases h.view e with hsame | ⟨hnone, hnew⟩
  · rw [← hsame]
    exact h'.view e
  · refine .inr ⟨hnone, ?_⟩
    rcases h'.view e with hsame' | ⟨hnone', -⟩
    · rwa [hsame']
    · obtain ⟨skillId, opts, hsome⟩ := hnew
      rw [hsome] at hnone'
      cases hnone'

theorem Quiet.foldl {ι : Type} {f : SkillHealthMonitor → ι → SkillHealthMonitor}
    (hf : ∀ s x, Quiet s (f s x)) (l : List ι) (s : SkillHealthMonitor) : Quiet s (l.foldl f s) := by
  induction l generalizing s with
  | nil => exact .refl s
  | cons x l ih => exact (hf s x).trans (ih (f s x))

theorem view_timer (entries : Arena SkillEntry) (e other : ℕ) (timer : Option ℕ) :
    ((entries.modify e fun x => { x with timer := timer }).get other).map SkillEntry.core =
      (entries.get other).map SkillEntry.core := by
  rw [Arena.get_modify]
  split
  · rw [Option.map_map]
    rfl
  · rfl

theorem flight_abortCheck (checks : Arena HealthCheck) (abort : Option ℕ) (i : ℕ) :
    ((abortCheck checks abort).get i).map HealthCheck.key = (checks.get i).map HealthCheck.key := by
  cases abort with
  | none => rfl
  | some j =>
      rw [abortCheck, Arena.get_modify]
      split
      · rw [Option.map_map]
        rfl
      · rfl

theorem quiet_scheduleNext (s : SkillHealthMonitor) (e : ℕ) : Quiet s (s.scheduleNext e) := by
  unfold SkillHealthMonitor.scheduleNext
  split
  · exact .refl s
  · split
    · exact .refl s
    · exact ⟨fun other => .inl (view_timer _ e other _), fun _ => rfl⟩

theorem quiet_stopEntry (s : SkillHealthMonitor) (e : ℕ) : Quiet s (s.stopEntry e) := by
  unfold SkillHealthMonitor.stopEntry
  split
  · exact .refl s
  · exact ⟨fun other => .inl (view_timer _ e other _), flight_abortCheck _ _⟩

theorem quiet_insert (s : SkillHealthMonitor) (skillId : String) (opts : SkillHealthOpts) :
    Quiet s (s.insert skillId opts) := by
  refine ⟨fun e => ?_, fun _ => rfl⟩
  simp only [SkillHealthMonitor.insert, SkillHealthMonitor.view, Arena.get_alloc]
  split
  case isTrue he =>
    subst he
    rw [s.entries.fresh _ le_rfl]
    exact .inr ⟨rfl, skillId, opts, rfl⟩
  case isFalse => exact .inl rfl

theorem quiet_register (s : SkillHealthMonitor) (skillId : String) (opts : SkillHealthOpts) :
    Quiet s (s.register skillId opts) := by
  have hdropped : Quiet s (match (s.skills.get skillId).bind s.entries.get with
      | none => s
      | some existing => s.drop existing) := by
    split
    · exact .refl s
    · exact ⟨fun _ => .inl rfl, flight_abortCheck _ _⟩
  have hinserted := hdropped.trans (quiet_insert _ skillId opts)
  unfold SkillHealthMonitor.register
  dsimp only
  split
  · exact hinserted.trans (quiet_scheduleNext _ _)
  · exact hinserted

theorem quiet_run (s : SkillHealthMonitor) (call : MonitorCall) : Quiet s (call.run s) := by
  cases call with
  | register skillId opts => exact quiet_register s skillId opts
  | start =>
      rw [MonitorCall.run, SkillHealthMonitor.start]
      split
      · exact .refl s
      · have hflags : Quiet s { s with started := true, stopped := false, starts := s.starts + 1 } :=
          ⟨fun _ => .inl rfl, fun _ => rfl⟩
        exact hflags.trans (.foldl quiet_scheduleNext _ _)
  | stop =>
      have hflags : Quiet s { s with stopped := true, started := false } :=
        ⟨fun _ => .inl rfl, fun _ => rfl⟩
      exact hflags.trans (.foldl quiet_stopEntry _ _)

/-! ## The entries and their checks -/

/-- Every entry keeps its law, and a check in flight is the last thing its entry has begun. -/
structure MonitorInv (s : SkillHealthMonitor) : Prop where
  entries : ∀ e entry, s.view e = some entry → EntryLaw entry
  flight : ∀ i check, s.flight i = some check → ∃ entry, s.view check.entry = some entry ∧
    entry.inflight = true ∧ entry.history.head? = some (.begun i check.epoch)

theorem MonitorInv.quiet (h : MonitorInv s) (hquiet : Quiet s s') : MonitorInv s' := by
  refine ⟨fun e entry hentry => ?_, fun i check hcheck => ?_⟩
  · rcases hquiet.view e with hsame | ⟨-, skillId, opts, hnew⟩
    · exact h.entries e entry (hsame ▸ hentry)
    · rw [hnew] at hentry
      obtain rfl := Option.some.inj hentry
      exact ⟨rfl, rfl, rfl, trivial⟩
  · obtain ⟨entry, hentry, hflag, hhead⟩ := h.flight i check (hquiet.flight i ▸ hcheck)
    refine ⟨entry, ?_, hflag, hhead⟩
    rcases hquiet.view check.entry with hsame | ⟨hnone, -⟩
    · exact hsame.trans hentry
    · rw [hnone] at hentry
      cases hentry

/-- Two checks in flight are of two entries. -/
theorem MonitorInv.single (h : MonitorInv s) {j : ℕ} {c d : HealthCheck}
    (hc : s.flight i = some c) (hd : s.flight j = some d) (hentry : c.entry = d.entry) : i = j := by
  obtain ⟨x, hx, -, hi⟩ := h.flight i c hc
  obtain ⟨y, hy, -, hj⟩ := h.flight j d hd
  rw [hentry, hy] at hx
  obtain rfl := Option.some.inj hx
  rw [hi] at hj
  injection Option.some.inj hj

theorem get_modify_of_get {entries : Arena SkillEntry} {entry : SkillEntry}
    (hentry : entries.get e = some entry) (f : SkillEntry → SkillEntry) (other : ℕ) :
    ((entries.modify e f).get other).map SkillEntry.core =
      if other = e then some (f entry).core else (entries.get other).map SkillEntry.core := by
  rw [Arena.get_modify]
  by_cases hother : other = e
  · rw [if_pos hother, if_pos hother, hother, hentry]
    rfl
  · rw [if_neg hother, if_neg hother]

theorem MonitorInv.runCheck (h : MonitorInv s) (e : ℕ) : MonitorInv (s.runCheck e) := by
  unfold SkillHealthMonitor.runCheck
  cases hentry : s.entries.get e with
  | none => exact h
  | some entry =>
      dsimp only
      split
      case isTrue => exact h
      case isFalse hfree =>
        have hlaw : EntryLaw entry.core := h.entries e _ (by
          rw [SkillHealthMonitor.view, hentry]
          rfl)
        refine ⟨fun other entry' hother => ?_, fun i check hcheck => ?_⟩
        · rw [SkillHealthMonitor.view, get_modify_of_get hentry] at hother
          split at hother
          · obtain rfl := Option.some.inj hother
            exact ⟨hlaw.state, hlaw.successes, hlaw.failures, hlaw.history⟩
          · exact h.entries other entry' hother
        · simp only [SkillHealthMonitor.flight, Arena.get_alloc] at hcheck
          rw [SkillHealthMonitor.view, get_modify_of_get hentry]
          split at hcheck
          case isTrue hi =>
            obtain rfl := Option.some.inj hcheck
            exact ⟨_, if_pos rfl, rfl, hi ▸ rfl⟩
          case isFalse hi =>
            obtain ⟨x, hx, hflag, hhead⟩ := h.flight i check hcheck
            -- the entry of a check in flight has the flag set
            have hne : check.entry ≠ e := by
              intro heq
              rw [heq, SkillHealthMonitor.view, hentry] at hx
              obtain rfl := Option.some.inj hx
              have hflag' : entry.inflight = true := hflag
              simp [hflag'] at hfree
            rw [if_neg hne]
            exact ⟨x, hx, hflag, hhead⟩

/-- After its check is over, an entry keeps its law and has no check in flight. -/
structure Released (s : SkillHealthMonitor) (i e epoch : ℕ) : Prop where
  inv : MonitorInv s
  free : ∀ j check, s.flight j = some check → check.entry ≠ e
  head : ∀ entry, s.entries.get e = some entry → entry.history.head? = some (.begun i epoch)

theorem MonitorInv.release (h : MonitorInv s) {check : HealthCheck}
    (hcheck : s.checks.get i = some check) :
    Released (s.release i check.entry) i check.entry check.epoch := by
  have hflight : s.flight i = some check.key := by
    rw [SkillHealthMonitor.flight, hcheck]
    rfl
  obtain ⟨core, hcore, -, hhead⟩ := h.flight i _ hflight
  obtain ⟨entry, hentry, rfl⟩ := Option.map_eq_some_iff.mp hcore
  have hentry' : s.entries.get check.entry = some entry := hentry
  have hlaw := h.entries _ _ hcore
  -- the other checks are of other entries
  have hothers : ∀ j other, (s.release i check.entry).flight j = some other →
      s.flight j = some other ∧ other.entry ≠ check.entry := by
    intro j other hother
    simp only [SkillHealthMonitor.flight, SkillHealthMonitor.release, Arena.get_free] at hother
    split at hother
    case isTrue => cases hother
    case isFalse hj => exact ⟨hother, fun heq => hj (h.single hother hflight heq)⟩
  refine ⟨⟨fun other x hx => ?_, fun j other hother => ?_⟩, fun j other hother =>
    (hothers j other hother).2, fun x hx => ?_⟩
  · rw [SkillHealthMonitor.view, SkillHealthMonitor.release, get_modify_of_get hentry'] at hx
    split at hx
    · obtain rfl := Option.some.inj hx
      exact ⟨hlaw.state, hlaw.successes, hlaw.failures, hlaw.history⟩
    · exact h.entries other x hx
  · obtain ⟨hold, hne⟩ := hothers j other hother
    obtain ⟨x, hx, hflag, hhead'⟩ := h.flight j other hold
    rw [SkillHealthMonitor.view, SkillHealthMonitor.release, get_modify_of_get hentry', if_neg hne]
    exact ⟨x, hx, hflag, hhead'⟩
  · simp only [SkillHealthMonitor.release, Arena.get_modify_self, hentry', Option.map_some] at hx
    obtain rfl := Option.some.inj hx
    exact hhead

theorem Released.applyResult {epoch : ℕ} {entry : SkillEntry} (h : Released s i e epoch)
    (hentry : s.entries.get e = some entry) (ok : Bool) (err : Option String)
    (hook : List MonitorCall) : MonitorInv (s.applyResult i e epoch entry ok err hook) := by
  have hlaw : EntryLaw entry.core := h.inv.entries e _ (by
    rw [SkillHealthMonitor.view, hentry]
    rfl)
  have hentryLaw : EntryLaw entry := ⟨hlaw.state, hlaw.successes, hlaw.failures, hlaw.history⟩
  have happlied := hentryLaw.applyResult (h.head entry hentry) s.starts ok err
  -- the check is over before the hooks run, so they find a lawful state
  have hinv : MonitorInv
      { s with entries := s.entries.modify e fun _ =>
          (entry.applyResult i epoch s.starts ok err).1 } := by
    refine ⟨fun other x hx => ?_, fun j check hcheck => ?_⟩
    · rw [SkillHealthMonitor.view, get_modify_of_get hentry] at hx
      split at hx
      · obtain rfl := Option.some.inj hx
        exact ⟨happlied.state, happlied.successes, happlied.failures, happlied.history⟩
      · exact h.inv.entries other x hx
    · rw [SkillHealthMonitor.view, get_modify_of_get hentry, if_neg (h.free j check hcheck)]
      exact h.inv.flight j check hcheck
  unfold SkillHealthMonitor.applyResult
  dsimp only
  split
  · exact hinv
  · exact hinv.quiet (.foldl quiet_run hook _)

theorem MonitorInv.settle (h : MonitorInv s) {check : HealthCheck}
    (hcheck : s.checks.get i = some check) (outcome : CheckOutcome) (hook : List MonitorCall) :
    MonitorInv (s.settle i check outcome hook) := by
  have hreleased := h.release hcheck
  unfold SkillHealthMonitor.settle
  dsimp only
  split
  · exact hreleased.inv
  · exact hreleased.inv
  · split
    · exact hreleased.inv
    · exact (hreleased.applyResult ‹_› _ _ hook).quiet (quiet_scheduleNext _ _)

theorem MonitorInv.step (h : MonitorInv s) {action : MonitorAction}
    (hstep : monitorMachine.step s action = some s') : MonitorInv s' := by
  cases action with
  | call call =>
      obtain rfl := Option.some.inj hstep
      exact h.quiet (quiet_run s call)
  | fire t =>
      obtain ⟨e, -, rfl⟩ := Option.map_eq_some_iff.mp hstep
      have hfired : MonitorInv { s with timers := s.timers.free t } :=
        h.quiet ⟨fun _ => .inl rfl, fun _ => rfl⟩
      exact hfired.runCheck e
  | timeout i =>
      obtain ⟨check, -, rfl⟩ := Option.map_eq_some_iff.mp hstep
      exact h.quiet ⟨fun _ => .inl rfl, flight_abortCheck s.checks (some i)⟩
  | settle i outcome hook =>
      obtain ⟨check, hcheck, rfl⟩ := Option.map_eq_some_iff.mp hstep
      exact h.settle hcheck outcome hook

theorem monitorInv_of_reachable (h : monitorMachine.Reachable s) : MonitorInv s :=
  Machine.Reachable.invariant ⟨fun _ _ hview => (nomatch hview), fun _ _ hflight => (nomatch hflight)⟩
    (fun _ _ _ hs hstep => hs.step hstep) h

/-! ## What is counted -/

/-- The results of an entry stay as they are. -/
def KeepsResults (e : ℕ) (s s' : SkillHealthMonitor) : Prop :=
  ∀ entry, s.view e = some entry → ∃ entry', s'.view e = some entry' ∧
    results entry'.history = results entry.history

theorem KeepsResults.trans (h : KeepsResults e s s') (h' : KeepsResults e s' s'') :
    KeepsResults e s s'' := by
  intro entry hentry
  obtain ⟨entry', hentry', heq⟩ := h entry hentry
  obtain ⟨entry'', hentry'', heq'⟩ := h' entry' hentry'
  exact ⟨entry'', hentry'', heq'.trans heq⟩

theorem Quiet.keepsResults (h : Quiet s s') (e : ℕ) : KeepsResults e s s' := by
  intro entry hentry
  rcases h.view e with hsame | ⟨hnone, -⟩
  · exact ⟨entry, hsame.trans hentry, rfl⟩
  · rw [hnone] at hentry
    cases hentry

/-- A change of one entry that keeps its results keeps those of all. -/
theorem keepsResults_modify {f : SkillEntry → SkillEntry}
    (hview : ∀ other, s'.view other = ((s.entries.modify i f).get other).map SkillEntry.core)
    (hf : e = i → ∀ x, results (f x).history = results x.history) : KeepsResults e s s' := by
  intro entry hentry
  obtain ⟨x, hx, rfl⟩ := Option.map_eq_some_iff.mp hentry
  rw [hview, Arena.get_modify, hx]
  by_cases hei : e = i
  · rw [if_pos hei]
    exact ⟨_, rfl, hf hei x⟩
  · rw [if_neg hei]
    exact ⟨_, rfl, rfl⟩

theorem keepsResults_runCheck (s : SkillHealthMonitor) (i e : ℕ) :
    KeepsResults e s (s.runCheck i) := by
  unfold SkillHealthMonitor.runCheck
  split
  · exact (Quiet.refl s).keepsResults e
  · split
    · exact (Quiet.refl s).keepsResults e
    · exact keepsResults_modify (fun _ => rfl) fun _ _ => rfl

theorem keepsResults_release (s : SkillHealthMonitor) (i j e : ℕ) :
    KeepsResults e s (s.release i j) :=
  keepsResults_modify (fun _ => rfl) fun _ _ => rfl

/-- A result is counted for its own entry only. -/
theorem keepsResults_applyResult (s : SkillHealthMonitor) {j : ℕ} (hne : e ≠ j) (i epoch : ℕ)
    (entry : SkillEntry) (ok : Bool) (err : Option String) (hook : List MonitorCall) :
    KeepsResults e s (s.applyResult i j epoch entry ok err hook) := by
  have happlied : KeepsResults e s
      { s with entries := s.entries.modify j fun _ =>
          (entry.applyResult i epoch s.starts ok err).1 } :=
    keepsResults_modify (fun _ => rfl) fun heq => absurd heq hne
  unfold SkillHealthMonitor.applyResult
  dsimp only
  split
  · exact happlied
  · exact happlied.trans ((Quiet.foldl quiet_run hook _).keepsResults e)

/-- A settled check changes the results only of its entry, where the monitor counts them. -/
theorem settle_counted (s : SkillHealthMonitor) {check : HealthCheck} {entry : SkillEntry}
    (hentry : s.entries.get e = some entry) (i : ℕ) (outcome : CheckOutcome)
    (hook : List MonitorCall) :
    KeepsResults e s (s.settle i check outcome hook) ∨
      s.stopped = false ∧ s.skills.get entry.skillId = some e := by
  have hreleased := keepsResults_release s i check.entry e
  unfold SkillHealthMonitor.settle
  dsimp only
  split
  · exact .inl hreleased
  · exact .inl hreleased
  case h_3 x _ hx =>
    split
    case isTrue => exact .inl hreleased
    case isFalse hcount =>
      by_cases he : e = check.entry
      · subst he
        simp only [SkillHealthMonitor.release, Arena.get_modify_self, hentry, Option.map_some] at hx
        obtain rfl := Option.some.inj hx
        rw [not_or, not_not] at hcount
        exact .inr ⟨Bool.eq_false_of_not_eq_true hcount.1, hcount.2⟩
      · refine .inl (hreleased.trans (.trans ?_ ((quiet_scheduleNext _ _).keepsResults e)))
        exact keepsResults_applyResult _ he i _ x _ _ hook

theorem KeepsResults.results_eq (h : KeepsResults e s s') {entry entry' : SkillEntry}
    (hentry : s.entries.get e = some entry) (hentry' : s'.entries.get e = some entry') :
    results entry'.history = results entry.history := by
  obtain ⟨x, hx, heq⟩ := h entry.core (by rw [SkillHealthMonitor.view, hentry]; rfl)
  rw [SkillHealthMonitor.view, hentry'] at hx
  obtain rfl := Option.some.inj hx
  exact heq

theorem counted_of_step {action : MonitorAction} {entry entry' : SkillEntry}
    (hstep : monitorMachine.step s action = some s') (hentry : s.entries.get e = some entry)
    (hentry' : s'.entries.get e = some entry')
    (hchanged : results entry'.history ≠ results entry.history) :
    s.stopped = false ∧ s.skills.get entry.skillId = some e := by
  cases action with
  | call call =>
      obtain rfl := Option.some.inj hstep
      exact absurd (((quiet_run s call).keepsResults e).results_eq hentry hentry') hchanged
  | fire t =>
      obtain ⟨j, -, rfl⟩ := Option.map_eq_some_iff.mp hstep
      have hkeeps := keepsResults_runCheck { s with timers := s.timers.free t } j e
      exact absurd (hkeeps.results_eq hentry hentry') hchanged
  | timeout i =>
      obtain ⟨check, -, rfl⟩ := Option.map_eq_some_iff.mp hstep
      obtain rfl := Option.some.inj (hentry.symm.trans hentry')
      exact absurd rfl hchanged
  | settle i outcome hook =>
      obtain ⟨check, -, rfl⟩ := Option.map_eq_some_iff.mp hstep
      rcases settle_counted s hentry i outcome hook with hkeeps | hcounted
      · exact absurd (hkeeps.results_eq hentry hentry') hchanged
      · exact hcounted

/-- The transitions of an entry are debounced and form a chain, an entry has one check in flight,
and what settles after a stop or a new registration is not counted. -/
theorem monitor_law (h : monitorMachine.Reachable s) : MonitorLaw s := by
  have hinv := monitorInv_of_reachable h
  refine ⟨fun e entry hentry => ?_, fun i j c d hc hd hentry => ?_,
    fun _ _ hstep _ _ _ hentry hentry' hchanged => counted_of_step hstep hentry hentry' hchanged⟩
  · exact (hinv.entries e entry.core (by rw [SkillHealthMonitor.view, hentry]; rfl)).history
  · have hc' : s.flight i = some c.key := by rw [SkillHealthMonitor.flight, hc]; rfl
    have hd' : s.flight j = some d.key := by rw [SkillHealthMonitor.flight, hd]; rfl
    exact hinv.single hc' hd' hentry

end Laws

/-! ## A restart -/

/-- Are the results before every transition of checks of its own epoch? -/
def SinceStart (opts : SkillHealthOpts) : List HealthEvent → Prop
  | [] => True
  | .begun _ _ :: earlier | .result _ _ _ :: earlier => SinceStart opts earlier
  | .transition epoch _ dst :: earlier =>
      Debounced opts (earlier.filter fun
        | .result _ e _ => e = epoch
        | .begun _ _ | .transition _ _ _ => true) dst ∧ SinceStart opts earlier

/-- A skill that succeeds twice. -/
theorem monitor_law_healthy :
    ∃ s : SkillHealthMonitor, (s.entries.get 0).map (fun entry => entry.history) =
      some [.transition 1 .unknown .healthy, .result 1 1 true, .begun 1 1, .result 0 1 true,
        .begun 0 1] ∧ MonitorLaw s := by
  have hrun : (monitorMachine.runFrom monitorMachine.init
      [.call (.register "ollama" {}), .call .start, .fire 0, .settle 0 (.resolved true) [],
        .fire 1, .settle 1 (.resolved true) []]).map (fun s => (s.entries.get 0).map
          fun entry => entry.history) =
      some (some [.transition 1 .unknown .healthy, .result 1 1 true, .begun 1 1, .result 0 1 true,
        .begun 0 1]) := by
    decide +kernel
  obtain ⟨s, hs, hhistory⟩ := Option.map_eq_some_iff.mp hrun
  exact ⟨s, hhistory, monitor_law (Machine.reachable_of_runFrom hs)⟩

/-- A success before a restart counts together with one after it. -/
theorem healthy_over_restart :
    ∃ s : SkillHealthMonitor, monitorMachine.Reachable s ∧ ∃ entry,
      s.entries.get 0 = some entry ∧ entry.history =
        [.transition 2 .unknown .healthy, .result 1 2 true, .begun 1 2, .result 0 1 true,
          .begun 0 1] ∧ ¬ SinceStart entry.opts entry.history := by
  have hrun : (monitorMachine.runFrom monitorMachine.init
      [.call (.register "ollama" {}), .call .start, .fire 0, .settle 0 (.resolved true) [],
        .call .stop, .call .start, .fire 2, .settle 1 (.resolved true) []]).map (fun s =>
          (s.entries.get 0).map fun entry => (entry.opts, entry.history)) =
      some (some ({}, [.transition 2 .unknown .healthy, .result 1 2 true, .begun 1 2,
        .result 0 1 true, .begun 0 1])) := by
    decide +kernel
  obtain ⟨s, hs, hentry⟩ := Option.map_eq_some_iff.mp hrun
  obtain ⟨entry, hget, hview⟩ := Option.map_eq_some_iff.mp hentry
  obtain ⟨hopts, hhistory⟩ := Prod.mk.inj hview
  refine ⟨s, Machine.reachable_of_runFrom hs, entry, hget, hhistory, ?_⟩
  rw [hopts, hhistory]
  intro hsince
  have hup : (Js.Number.ofInt 2).le (.ofInt 1) = true := hsince.1
  exact absurd hup (by decide +kernel)

end ThinkLocal.Skills
