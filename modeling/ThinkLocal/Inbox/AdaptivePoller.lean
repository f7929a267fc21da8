import Mathlib
import ThinkLocal.Foundation.Machine
import ThinkLocal.Inbox.PollCycle
import ThinkLocal.Js.Number

/-!
# The adaptive inbox poller

`createAdaptiveInboxPoller` of `inbox-poller.ts`.  A timer that fires begins a cycle, and the end
of a cycle sets the next timer if the poller is active.  A `stop` and a `start` during a cycle
leave the timer of the `start` beside the one that the end of the cycle sets.
-/

namespace ThinkLocal.Inbox

open Foundation
open Js (Number)

/-! ## Delays -/

/-- `delay * 2`, which overflows where a double does. -/
def doubled : Number → Number
  | .finite value =>
      if 2 ^ 1024 ≤ value * 2 then .infinity
      else if value * 2 ≤ -2 ^ 1024 then .negInfinity
      else .finite (value * 2)
  | x => x

/-- `Math.min`. -/
def numberMin (a b : Number) : Number :=
  if a = .nan ∨ b = .nan then .nan else if a.lt b then a else b

/-- `Math.max`. -/
def numberMax (a b : Number) : Number :=
  if a = .nan ∨ b = .nan then .nan else if a.lt b then b else a

/-- The options, and whether there is a log: its arguments are computed only then. -/
structure AdaptiveInboxPollerOptions where
  initialMs : Number
  maxMs : Number
  log : Bool

namespace AdaptiveInboxPollerOptions

def longest (opts : AdaptiveInboxPollerOptions) : Number := numberMax opts.maxMs opts.initialMs

def backoff (opts : AdaptiveInboxPollerOptions) (delay : Number) : Number :=
  numberMin (doubled delay) opts.longest

end AdaptiveInboxPollerOptions

/-! ## The poller -/

structure PollTimer where
  id : ℕ
  ms : Number

/-- The variables of the poller, and outside of it the timers that are pending, the cycles that
run and those that are over. -/
structure AdaptivePoller where
  timer : Option ℕ := none
  active : Bool := false
  inFlight : Bool := false
  delay : Number
  pending : List PollTimer := []
  timers : ℕ := 0
  running : List PollCycle := []
  finished : List PollNext := []
  begun : ℕ := 0

namespace AdaptivePoller

variable (opts : AdaptiveInboxPollerOptions) (s : AdaptivePoller)

def schedule (ms : Number) : AdaptivePoller :=
  { s with timer := some s.timers, pending := s.pending ++ [⟨s.timers, ms⟩], timers := s.timers + 1 }

def start : AdaptivePoller :=
  if s.active then s else { s with active := true, delay := opts.initialMs }.schedule opts.initialMs

/-- `clearTimeout` of a timer that has fired does nothing. -/
def stop : AdaptivePoller :=
  { s with
    active := false
    timer := none
    pending := match s.timer with
      | some id => s.pending.filter fun t => t.id ≠ id
      | none => s.pending }

/-- `tick` up to its first `await`. -/
def tick : AdaptivePoller :=
  if s.active = false ∨ s.inFlight = true then s
  else { s with inFlight := true, running := s.running ++ [{}], begun := s.begun + 1 }

/-- `tick` after `pollInboxOnce` has settled: the cycle is over, the delay is the new one, and the
next timer is set unless an error has left `tick`. -/
def afterCycle (k : ℕ) (ended : PollNext) (delay : Number) (reschedules : Bool) : AdaptivePoller :=
  let s := { s with
    inFlight := false
    delay := delay
    running := s.running.eraseIdx k
    finished := s.finished ++ [ended] }
  if s.active = true ∧ reschedules = true then s.schedule delay else s

/-- An error without a text leaves `tick` from the arguments of the log. -/
def settle (k : ℕ) : PollNext → AdaptivePoller
  | .going c => { s with running := s.running.set k c }
  | .resolved c result =>
      s.afterCycle k (.resolved c result)
        (if 0 < result.total then opts.initialMs else opts.backoff s.delay) true
  | .rejected c text =>
      if opts.log = true ∧ text = none then s.afterCycle k (.rejected c text) s.delay false
      else s.afterCycle k (.rejected c text) (opts.backoff s.delay) true

end AdaptivePoller

inductive AdaptivePollerAction
  | start
  | stop
  /-- A pending timer fires. -/
  | fire (id : ℕ)
  /-- A running cycle, given by its place, gets the answer it waits for. -/
  | answer (k : ℕ) (answer : PollAnswer)

def pollerMachine (opts : AdaptiveInboxPollerOptions) :
    Machine AdaptivePoller AdaptivePollerAction where
  init := { delay := opts.initialMs }
  step s
    | .start => some (s.start opts)
    | .stop => some s.stop
    | .fire id =>
        if ∃ t ∈ s.pending, t.id = id then
          some { s with pending := s.pending.filter fun t => t.id ≠ id }.tick
        else none
    | .answer k answer =>
        (s.running[k]?).bind fun c => (c.answer answer).map (s.settle opts k)

/-! ## The law of the poller -/

/-- What holds of the poller in every state. -/
structure PollerLaw (opts : AdaptiveInboxPollerOptions) (s : AdaptivePoller) : Prop where
  oneTimer : s.pending.length ≤ 1
  oneCycle : s.running.length ≤ 1
  alive : s.active = true → s.pending ≠ [] ∨ s.running ≠ []
  /-- A stopped poller begins no cycle, and only a start makes it run. -/
  quiet : s.active = false → ∀ action s', (pollerMachine opts).step s action = some s' →
    s'.begun = s.begun ∧ (s'.active = true → action = .start)
  cycles : ∀ c ∈ s.running, CycleLaw c
  results : ∀ ended ∈ s.finished, ended.Lawful

/-- The end of a cycle of an active poller: if the next timer is set there, no other one is
pending, and if an error prevents it, one is. -/
def TimersMeet (opts : AdaptiveInboxPollerOptions) (s : AdaptivePoller) : PollNext → Prop
  | .going _ => True
  | .resolved _ _ => s.active = true → s.pending = []
  | .rejected _ text => s.active = true →
      if opts.log = true ∧ text = none then s.pending ≠ [] else s.pending = []

/-- The same for a step. -/
def TimersMeetStep (opts : AdaptiveInboxPollerOptions) (s : AdaptivePoller) :
    AdaptivePollerAction → Prop
  | .start | .stop | .fire _ => True
  | .answer k answer => ∀ c, s.running[k]? = some c → ∀ next, c.answer answer = some next →
      TimersMeet opts s next

/-- No start comes while a cycle runs that a stop has interrupted, and with a log no fetch for an active
poller fails with an error without a text. -/
def Uninterrupted (opts : AdaptiveInboxPollerOptions) (s : AdaptivePoller) :
    AdaptivePollerAction → Prop
  | .start => s.active = false → s.inFlight = false
  | .answer _ (.fetchFailed none) => opts.log = true → s.active = false
  | _ => True

instance (opts : AdaptiveInboxPollerOptions) (s : AdaptivePoller) (next : PollNext) :
    Decidable (TimersMeet opts s next) := by
  cases next <;> simp only [TimersMeet] <;> infer_instance

instance (opts : AdaptiveInboxPollerOptions) (s : AdaptivePoller) (action : AdaptivePollerAction) :
    Decidable (TimersMeetStep opts s action) :=
  match action with
  | .start | .stop | .fire _ => .isTrue trivial
  | .answer k answer => inferInstanceAs (Decidable (∀ c ∈ s.running[k]?,
      ∀ next ∈ c.answer answer, TimersMeet opts s next))

section Proofs

variable {opts : AdaptiveInboxPollerOptions} {s s' : AdaptivePoller}

/-! ## The cycles -/

/-- One cycle runs exactly while the flag is set, and all cycles keep their law. -/
structure CyclesLaw (s : AdaptivePoller) : Prop where
  count : s.running.length = if s.inFlight then 1 else 0
  running : ∀ c ∈ s.running, CycleLaw c
  finished : ∀ ended ∈ s.finished, ended.Lawful

theorem cycleLaw_new : CycleLaw {} :=
  ⟨trivial, fun _ _ hmem => (nomatch hmem), rfl⟩

theorem CyclesLaw.schedule (h : CyclesLaw s) (ms : Number) : CyclesLaw (s.schedule ms) :=
  ⟨h.count, h.running, h.finished⟩

theorem CyclesLaw.tick (h : CyclesLaw s) : CyclesLaw s.tick := by
  unfold AdaptivePoller.tick
  split
  case isTrue => exact h
  case isFalse hrun =>
    have hflag : s.inFlight = false := by
      simpa using fun hinFlight => hrun (.inr hinFlight)
    have hcount := h.count
    rw [hflag] at hcount
    refine ⟨?_, fun c hc => ?_, h.finished⟩
    · rw [List.length_append, hcount]
      rfl
    · rcases List.mem_append.mp hc with hold | hnew
      · exact h.running c hold
      · exact List.mem_singleton.mp hnew ▸ cycleLaw_new

theorem CyclesLaw.afterCycle (h : CyclesLaw s) {k : ℕ} (hk : k < s.running.length)
    {ended : PollNext} (hended : ended.Lawful) (delay : Number) (reschedules : Bool) :
    CyclesLaw (s.afterCycle k ended delay reschedules) := by
  -- one cycle runs at a time, so none is left after its end
  have hempty : s.running.length = 1 := by
    have hcount := h.count
    split at hcount
    · exact hcount
    · omega
  have hover : CyclesLaw
      { s with
        inFlight := false
        delay := delay
        running := s.running.eraseIdx k
        finished := s.finished ++ [ended] } := by
    refine ⟨?_, fun c hc => h.running c (List.mem_of_mem_eraseIdx hc), fun other hother => ?_⟩
    · dsimp only
      rw [List.length_eraseIdx_of_lt hk, hempty]
      rfl
    · rcases List.mem_append.mp hother with hold | hnew
      · exact h.finished other hold
      · exact List.mem_singleton.mp hnew ▸ hended
  unfold AdaptivePoller.afterCycle
  dsimp only
  split
  · exact hover.schedule delay
  · exact hover

theorem CyclesLaw.settle (h : CyclesLaw s) {k : ℕ} (hk : k < s.running.length) {next : PollNext}
    (hnext : next.Lawful) : CyclesLaw (s.settle opts k next) := by
  cases next with
  | going c =>
      refine ⟨?_, fun other hother => ?_, h.finished⟩
      · rw [AdaptivePoller.settle, List.length_set]
        exact h.count
      · rcases List.mem_or_eq_of_mem_set hother with hold | rfl
        · exact h.running other hold
        · exact hnext
  | resolved c result => exact h.afterCycle hk hnext _ _
  | rejected c text =>
      rw [AdaptivePoller.settle]
      split_ifs
      · exact h.afterCycle hk hnext _ _
      · exact h.afterCycle hk hnext _ _

theorem CyclesLaw.step (h : CyclesLaw s) {action : AdaptivePollerAction}
    (hstep : (pollerMachine opts).step s action = some s') : CyclesLaw s' := by
  cases action with
  | start =>
      obtain rfl := Option.some.inj hstep
      unfold AdaptivePoller.start
      split
      · exact h
      · exact ⟨h.count, h.running, h.finished⟩
  | stop =>
      obtain rfl := Option.some.inj hstep
      exact ⟨h.count, h.running, h.finished⟩
  | fire timer =>
      obtain ⟨-, rfl⟩ := Option.ite_none_right_eq_some.mp hstep |>.imp id Option.some.inj
      have hfired : CyclesLaw { s with pending := s.pending.filter fun t => t.id ≠ timer } :=
        ⟨h.count, h.running, h.finished⟩
      exact hfired.tick
  | answer k answer =>
      obtain ⟨c, hc, hsettle⟩ := Option.bind_eq_some_iff.mp hstep
      obtain ⟨next, hnext, rfl⟩ := Option.map_eq_some_iff.mp hsettle
      obtain ⟨hk, rfl⟩ := List.getElem?_eq_some_iff.mp hc
      exact h.settle hk ((h.running _ (List.getElem_mem hk)).answer hnext)

theorem cyclesLaw_of_reachable (h : (pollerMachine opts).Reachable s) : CyclesLaw s := by
  refine Machine.Reachable.invariant ⟨rfl, ?_, ?_⟩ (fun _ _ _ hs hstep => hs.step hstep) h
  · exact fun _ hmem => by cases hmem
  · exact fun _ hmem => by cases hmem

/-! ## The timers -/

/-- At most the timer that the poller knows is pending, and only while it is active; an active
poller has a timer or a cycle. -/
structure TimersLaw (s : AdaptivePoller) : Prop where
  one : s.pending.length ≤ 1
  known : ∀ t ∈ s.pending, s.timer = some t.id
  stopped : s.active = false → s.pending = []
  alive : s.active = true → s.pending ≠ [] ∨ s.running ≠ []

theorem timersLaw_init : TimersLaw (pollerMachine opts).init :=
  ⟨Nat.zero_le 1, fun _ hmem => (nomatch hmem), fun _ => rfl, fun hactive => by cases hactive⟩

/-- With no other timer pending, the next one is the only one. -/
theorem timersLaw_schedule (hpending : s.pending = []) (hactive : s.active = true) (ms : Number) :
    TimersLaw (s.schedule ms) := by
  rw [AdaptivePoller.schedule, hpending, List.nil_append]
  refine ⟨le_rfl, fun t ht => ?_, fun hstopped => ?_, fun _ => .inl (List.cons_ne_nil _ _)⟩
  · rw [List.mem_singleton.mp ht]
  · exact absurd (hactive.symm.trans hstopped) Bool.noConfusion

theorem TimersLaw.start (h : TimersLaw s) : TimersLaw (s.start opts) := by
  unfold AdaptivePoller.start
  split
  case isTrue => exact h
  case isFalse hstopped =>
    have hpending := h.stopped (Bool.eq_false_of_not_eq_true hstopped)
    refine timersLaw_schedule ?_ rfl _
    exact hpending

/-- A stop clears the timer, which is the only one. -/
theorem TimersLaw.stop (h : TimersLaw s) : TimersLaw s.stop := by
  have hpending : s.stop.pending = [] := by
    unfold AdaptivePoller.stop
    cases htimer : s.timer with
    | none =>
        refine List.eq_nil_iff_forall_not_mem.mpr fun t ht => ?_
        have hknown := h.known t ht
        rw [htimer] at hknown
        cases hknown
    | some timer =>
        refine List.filter_eq_nil_iff.mpr fun t ht => ?_
        have hknown := h.known t ht
        rw [htimer] at hknown
        simp [Option.some.inj hknown]
  refine ⟨by rw [hpending]; exact Nat.zero_le 1, fun t ht => ?_, fun _ => hpending, fun hactive => ?_⟩
  · rw [hpending] at ht
    cases ht
  · cases hactive

/-- A timer that fires was the only one. -/
theorem TimersLaw.pending_fired (h : TimersLaw s) {t : PollTimer} (ht : t ∈ s.pending) :
    (s.pending.filter fun other => other.id ≠ t.id) = [] := by
  refine List.filter_eq_nil_iff.mpr fun other hother => ?_
  have hsame := (h.known other hother).symm.trans (h.known t ht)
  simp [Option.some.inj hsame]

theorem TimersLaw.fire (h : TimersLaw s) (hcycles : CyclesLaw s) {timer : ℕ}
    (htimer : ∃ t ∈ s.pending, t.id = timer) :
    TimersLaw { s with pending := s.pending.filter fun t => t.id ≠ timer }.tick := by
  obtain ⟨t, ht, rfl⟩ := htimer
  have hactive : s.active = true := by
    by_contra hstopped
    rw [h.stopped (Bool.eq_false_of_not_eq_true hstopped)] at ht
    cases ht
  rw [h.pending_fired ht, AdaptivePoller.tick]
  by_cases hflag : s.inFlight = true
  · rw [if_pos (.inr hflag)]
    have hcount := hcycles.count
    rw [if_pos hflag] at hcount
    refine ⟨Nat.zero_le 1, fun _ hmem => (nomatch hmem), fun _ => rfl, fun _ => .inr ?_⟩
    exact List.ne_nil_of_length_pos (hcount ▸ Nat.one_pos)
  · rw [if_neg fun hor => hor.elim (fun hstopped => by simp [hactive] at hstopped) hflag]
    refine ⟨Nat.zero_le 1, fun _ hmem => (nomatch hmem), fun _ => rfl, fun _ => .inr ?_⟩
    exact List.append_ne_nil_of_right_ne_nil _ (List.cons_ne_nil _ _)

theorem TimersLaw.afterCycle (h : TimersLaw s) (k : ℕ) (ended : PollNext) (delay : Number)
    {reschedules : Bool}
    (hmeet : s.active = true → if reschedules then s.pending = [] else s.pending ≠ []) :
    TimersLaw (s.afterCycle k ended delay reschedules) := by
  unfold AdaptivePoller.afterCycle
  dsimp only
  by_cases hactive : s.active = true
  · have hpending := hmeet hactive
    cases reschedules with
    | true =>
        rw [if_pos ⟨hactive, rfl⟩]
        refine timersLaw_schedule ?_ ?_ delay
        · exact hpending
        · exact hactive
    | false =>
        rw [if_neg (by simp)]
        exact ⟨h.one, h.known, h.stopped, fun _ => .inl hpending⟩
  · rw [if_neg fun hboth => hactive hboth.1]
    exact ⟨h.one, h.known, h.stopped, fun hrun => absurd hrun hactive⟩

theorem TimersLaw.settle (h : TimersLaw s) {k : ℕ} (hk : k < s.running.length) {next : PollNext}
    (hmeet : TimersMeet opts s next) : TimersLaw (s.settle opts k next) := by
  cases next with
  | going c =>
      refine ⟨h.one, h.known, h.stopped, fun hactive => (h.alive hactive).imp id fun _ => ?_⟩
      refine List.ne_nil_of_length_pos ?_
      rw [AdaptivePoller.settle, List.length_set]
      exact Nat.zero_lt_of_lt hk
  | resolved c result => exact h.afterCycle k _ _ hmeet
  | rejected c text =>
      rw [AdaptivePoller.settle]
      by_cases hthrows : opts.log = true ∧ text = none
      · rw [if_pos hthrows]
        refine h.afterCycle k _ _ fun hactive => ?_
        have hpending : if opts.log = true ∧ text = none then s.pending ≠ [] else s.pending = [] :=
          hmeet hactive
        rwa [if_pos hthrows] at hpending
      · rw [if_neg hthrows]
        refine h.afterCycle k _ _ fun hactive => ?_
        have hpending : if opts.log = true ∧ text = none then s.pending ≠ [] else s.pending = [] :=
          hmeet hactive
        rwa [if_neg hthrows] at hpending

theorem TimersLaw.step (h : TimersLaw s) (hcycles : CyclesLaw s) {action : AdaptivePollerAction}
    (hmeet : TimersMeetStep opts s action)
    (hstep : (pollerMachine opts).step s action = some s') : TimersLaw s' := by
  cases action with
  | start => obtain rfl := Option.some.inj hstep; exact h.start
  | stop => obtain rfl := Option.some.inj hstep; exact h.stop
  | fire timer =>
      obtain ⟨htimer, rfl⟩ := Option.ite_none_right_eq_some.mp hstep |>.imp id Option.some.inj
      exact h.fire hcycles htimer
  | answer k answer =>
      obtain ⟨c, hc, hsettle⟩ := Option.bind_eq_some_iff.mp hstep
      obtain ⟨next, hnext, rfl⟩ := Option.map_eq_some_iff.mp hsettle
      obtain ⟨hk, -⟩ := List.getElem?_eq_some_iff.mp hc
      exact h.settle hk (hmeet c hc next hnext)

/-! ## A stopped poller -/

theorem afterCycle_begun (s : AdaptivePoller) (k : ℕ) (ended : PollNext) (delay : Number)
    (reschedules : Bool) : (s.afterCycle k ended delay reschedules).begun = s.begun ∧
      (s.afterCycle k ended delay reschedules).active = s.active := by
  unfold AdaptivePoller.afterCycle
  dsimp only
  split <;> exact ⟨rfl, rfl⟩

variable (opts) in
theorem settle_begun (s : AdaptivePoller) (k : ℕ) (next : PollNext) :
    (s.settle opts k next).begun = s.begun ∧ (s.settle opts k next).active = s.active := by
  cases next with
  | going c => exact ⟨rfl, rfl⟩
  | resolved c result => exact afterCycle_begun s k _ _ _
  | rejected c text =>
      rw [AdaptivePoller.settle]
      split_ifs
      · exact afterCycle_begun s k _ _ _
      · exact afterCycle_begun s k _ _ _

theorem quiet_of_stopped (hstopped : s.active = false) {action : AdaptivePollerAction}
    (hstep : (pollerMachine opts).step s action = some s') :
    s'.begun = s.begun ∧ (s'.active = true → action = .start) := by
  cases action with
  | start =>
      obtain rfl := Option.some.inj hstep
      refine ⟨?_, fun _ => rfl⟩
      unfold AdaptivePoller.start
      split <;> rfl
  | stop =>
      obtain rfl := Option.some.inj hstep
      exact ⟨rfl, fun hactive => by cases hactive⟩
  | fire timer =>
      obtain ⟨-, rfl⟩ := Option.ite_none_right_eq_some.mp hstep |>.imp id Option.some.inj
      rw [AdaptivePoller.tick, if_pos (.inl hstopped)]
      exact ⟨rfl, fun hactive => absurd (hstopped.symm.trans hactive) Bool.noConfusion⟩
  | answer k answer =>
      obtain ⟨c, -, hsettle⟩ := Option.bind_eq_some_iff.mp hstep
      obtain ⟨next, -, rfl⟩ := Option.map_eq_some_iff.mp hsettle
      obtain ⟨hbegun, hactive⟩ := settle_begun opts s k next
      refine ⟨hbegun, fun hrun => ?_⟩
      exact absurd (hstopped.symm.trans (hactive.symm.trans hrun)) Bool.noConfusion

/-- Where the timers meet at the end of no cycle, the poller keeps its law. -/
theorem poller_law (h : (pollerMachine opts).ReachableUnder (TimersMeetStep opts) s) :
    PollerLaw opts s := by
  have hcycles : CyclesLaw s := cyclesLaw_of_reachable h.reachable
  have htimers : TimersLaw s :=
    Machine.ReachableUnder.invariant_with (fun _ hs => cyclesLaw_of_reachable hs) timersLaw_init
      (fun _ _ _ hcycles hs hmeet hstep => hs.step hcycles hmeet hstep) h
  refine ⟨htimers.one, ?_, htimers.alive, fun hstopped _ _ hstep => quiet_of_stopped hstopped hstep,
    hcycles.running, hcycles.finished⟩
  rw [hcycles.count]
  split
  · exact le_rfl
  · exact Nat.zero_le 1

/-! ## Where the timers meet -/

/-- Only the failed fetch of a value without a text ends a cycle so. -/
theorem fetchFailed_of_rejected {c c' : PollCycle} {answer : PollAnswer}
    (h : c.answer answer = some (.rejected c' none)) : answer = .fetchFailed none := by
  -- the next delivery never rejects
  have hnext (c c' : PollCycle) (i : ℕ) (messages : List PolledMessage) :
      c.next i messages ≠ .rejected c' none := by
    cases messages <;> exact fun heq => nomatch heq
  unfold PollCycle.answer at h
  cases answer with
  | fetched messages =>
      dsimp only at h
      split at h
      · exact absurd (Option.some.inj h) (hnext _ _ _ _)
      · cases h
  | fetchFailed text =>
      dsimp only at h
      split at h
      · cases h
        rfl
      · cases h
  | ended result =>
      dsimp only at h
      split at h
      all_goals first
        | cases h
        | exact absurd (Option.some.inj h) (hnext _ _ _ _)

/-- The invariant of the runs that are not interrupted: while a cycle of an active poller runs, no timer
is pending. -/
structure RunsOrWaits (s : AdaptivePoller) : Prop where
  cycles : CyclesLaw s
  timers : TimersLaw s
  alone : s.active = true → s.inFlight = true → s.pending = []

theorem RunsOrWaits.meets (h : RunsOrWaits s) {action : AdaptivePollerAction}
    (hC : Uninterrupted opts s action) : TimersMeetStep opts s action := by
  cases action with
  | start | stop | fire => trivial
  | answer k answer =>
      intro c hc next hnext
      obtain ⟨hk, -⟩ := List.getElem?_eq_some_iff.mp hc
      have hinFlight : s.inFlight = true := by
        by_contra hidle
        have hcount := h.cycles.count
        rw [if_neg hidle] at hcount
        omega
      cases next with
      | going => trivial
      | resolved => exact fun hactive => h.alone hactive hinFlight
      | rejected c' text =>
          intro hactive
          rw [if_neg]
          · exact h.alone hactive hinFlight
          · rintro ⟨hlog, rfl⟩
            obtain rfl := fetchFailed_of_rejected hnext
            exact absurd (hactive.symm.trans (hC hlog)) Bool.noConfusion

theorem settle_alone {k : ℕ} (next : PollNext)
    (halone : s.active = true → s.inFlight = true → s.pending = []) :
    (s.settle opts k next).active = true → (s.settle opts k next).inFlight = true →
      (s.settle opts k next).pending = [] := by
  have hidle (ended : PollNext) (delay : Number) (reschedules : Bool) :
      (s.afterCycle k ended delay reschedules).inFlight = false := by
    unfold AdaptivePoller.afterCycle
    dsimp only
    split <;> rfl
  cases next with
  | going => exact halone
  | resolved => exact fun _ hrun => absurd (hrun.symm.trans (hidle _ _ _)) Bool.noConfusion
  | rejected =>
      intro _ hrun
      rw [AdaptivePoller.settle] at hrun
      split_ifs at hrun <;> exact absurd (hrun.symm.trans (hidle _ _ _)) Bool.noConfusion

theorem RunsOrWaits.step (h : RunsOrWaits s) {action : AdaptivePollerAction}
    (hC : Uninterrupted opts s action)
    (hstep : (pollerMachine opts).step s action = some s') : RunsOrWaits s' := by
  refine ⟨h.cycles.step hstep, h.timers.step h.cycles (h.meets hC) hstep, ?_⟩
  cases action with
  | start =>
      obtain rfl := Option.some.inj hstep
      unfold AdaptivePoller.start
      split
      case isTrue => exact h.alone
      case isFalse hstopped =>
        -- the poller was stopped, so no cycle runs
        have hidle : s.inFlight = false := hC (Bool.eq_false_of_not_eq_true hstopped)
        exact fun _ hrun => absurd (hrun.symm.trans hidle) Bool.noConfusion
  | stop =>
      obtain rfl := Option.some.inj hstep
      exact fun hactive => nomatch hactive
  | fire timer =>
      obtain ⟨htimer, rfl⟩ := Option.ite_none_right_eq_some.mp hstep |>.imp id Option.some.inj
      obtain ⟨t, ht, rfl⟩ := htimer
      rw [h.timers.pending_fired ht]
      unfold AdaptivePoller.tick
      split <;> exact fun _ _ => rfl
  | answer k answer =>
      obtain ⟨c, -, hsettle⟩ := Option.bind_eq_some_iff.mp hstep
      obtain ⟨next, -, rfl⟩ := Option.map_eq_some_iff.mp hsettle
      exact settle_alone next h.alone

/-- In a run that is not interrupted the timers meet at the end of no cycle. -/
theorem timersMeet_of_uninterrupted (h : (pollerMachine opts).ReachableUnder (Uninterrupted opts) s) :
    (pollerMachine opts).ReachableUnder (TimersMeetStep opts) s := by
  have hboth : (pollerMachine opts).ReachableUnder (TimersMeetStep opts) s ∧ RunsOrWaits s := by
    induction h with
    | init => exact ⟨.init, cyclesLaw_of_reachable .init, timersLaw_init, fun hactive => nomatch hactive⟩
    | step _ hC hstep ih => exact ⟨.step ih.1 (ih.2.meets hC) hstep, ih.2.step hC hstep⟩
  exact hboth.1

end Proofs

/-! ## Two timers -/

/-- Delays of a second up to a minute, without a log. -/
def quietOptions : AdaptiveInboxPollerOptions where
  initialMs := .ofInt 1000
  maxMs := .ofInt 60000
  log := false

/-- A cycle with one message that is delivered and marked. -/
theorem poller_law_cycle :
    ∃ s : AdaptivePoller, s.finished.length = 1 ∧ s.pending.map (fun t => t.id) = [1] ∧
      PollerLaw quietOptions s := by
  have hrun : ((pollerMachine quietOptions).runFrom (pollerMachine quietOptions).init
      [.start, .fire 0, .answer 0 (.fetched [⟨"m1"⟩]), .answer 0 (.ended .resolved),
        .answer 0 (.ended .resolved)]).map (fun s => (s.finished.length, s.pending.map
          fun t => t.id)) = some (1, [1]) := by
    decide +kernel
  obtain ⟨s, hs, hview⟩ := Option.map_eq_some_iff.mp hrun
  obtain ⟨hfinished, hpending⟩ := Prod.mk.inj hview
  refine ⟨s, hfinished, hpending, poller_law (.runFrom .init ?_ hs)⟩
  decide +kernel

/-- A stop and a start during a cycle leave two timers behind its end. -/
theorem two_timers :
    ∃ s : AdaptivePoller, (pollerMachine quietOptions).Reachable s ∧
      s.pending.map (fun t => t.id) = [1, 2] ∧ ¬ PollerLaw quietOptions s := by
  have hrun : ((pollerMachine quietOptions).runFrom (pollerMachine quietOptions).init
      [.start, .fire 0, .stop, .start, .answer 0 (.fetched [])]).map
        (fun s => s.pending.map fun t => t.id) = some [1, 2] := by
    decide +kernel
  obtain ⟨s, hs, hpending⟩ := Option.map_eq_some_iff.mp hrun
  refine ⟨s, Machine.reachable_of_runFrom hs, hpending, fun hlaw => ?_⟩
  have hone := hlaw.oneTimer
  rw [← List.length_map (f := fun t : PollTimer => t.id), hpending] at hone
  exact absurd hone (by decide)

end ThinkLocal.Inbox
