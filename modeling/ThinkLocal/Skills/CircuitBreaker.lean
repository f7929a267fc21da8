import ThinkLocal.Foundation.InsertionMap
import ThinkLocal.Foundation.Machine
import ThinkLocal.Js.Number

/-!
# The circuit breaker

`circuit-breaker.ts`.  Asking and recording are separate calls that nothing ties together, so a
result may belong to a call that was allowed long before.  The number of probes is not counted:
every call is allowed in the half-open state.
-/

namespace ThinkLocal.Skills

open Foundation Js

/-! ## One circuit -/

inductive CircuitState
  | closed
  | opened
  | halfOpen
  deriving DecidableEq, Repr

structure CircuitBreakerConfig where
  failureThreshold : Option Number := none
  resetTimeoutMs : Option Number := none

namespace CircuitBreakerConfig

def threshold (config : CircuitBreakerConfig) : Number := config.failureThreshold.getD (.ofInt 5)

def timeout (config : CircuitBreakerConfig) : Number := config.resetTimeoutMs.getD (.ofInt 60000)

end CircuitBreakerConfig

structure CircuitEntry where
  state : CircuitState := .closed
  failures : ℕ := 0
  lastFailureAt : ℤ := 0
  openedAt : ℤ := 0
  successCount : ℕ := 0
  totalCalls : ℕ := 0
  deriving DecidableEq, Repr

namespace CircuitEntry

variable (config : CircuitBreakerConfig)

/-- Has the time to wait elapsed? -/
def elapsed (circuit : CircuitEntry) (now : ℤ) : Bool :=
  config.timeout.le (.ofInt (now - circuit.openedAt))

/-- The answer and the circuit after it. -/
def canExecute (circuit : CircuitEntry) (now : ℤ) : Bool × CircuitEntry :=
  match circuit.state with
  | .closed => (true, circuit)
  | .opened => if circuit.elapsed config now then (true, { circuit with state := .halfOpen })
      else (false, circuit)
  | .halfOpen => (true, circuit)

def recordSuccess (circuit : CircuitEntry) : CircuitEntry :=
  let circuit := { circuit with
    successCount := circuit.successCount + 1
    totalCalls := circuit.totalCalls + 1 }
  if circuit.state = .halfOpen then { circuit with state := .closed, failures := 0 }
  else { circuit with failures := 0 }

/-- The failure after counting: the clock is read once for `lastFailureAt` and once more where the
circuit opens. -/
def recordFailure (circuit : CircuitEntry) (now later : ℤ) : CircuitEntry :=
  let circuit := { circuit with
    failures := circuit.failures + 1
    totalCalls := circuit.totalCalls + 1
    lastFailureAt := now }
  if circuit.state = .halfOpen then { circuit with state := .opened, openedAt := later }
  else if config.threshold.le (.ofInt circuit.failures) then
    { circuit with state := .opened, openedAt := later }
  else circuit

def reset (circuit : CircuitEntry) : CircuitEntry :=
  { circuit with state := .closed, failures := 0 }

/-- Does a failure open the circuit?  One that comes late may open it again. -/
def opens (circuit : CircuitEntry) : Bool :=
  circuit.state = .halfOpen || config.threshold.le (.ofInt (circuit.failures + 1))

end CircuitEntry

/-! ## The breaker and its callers -/

abbrev Circuits := InsertionMap String CircuitEntry

namespace Circuits

/-- The circuit that `getOrCreate` gives. -/
def circuit (circuits : Circuits) (skillId : String) : CircuitEntry :=
  (circuits.get skillId).getD {}

def canExecute (config : CircuitBreakerConfig) (circuits : Circuits) (skillId : String) (now : ℤ) :
    Bool × Circuits :=
  let (allowed, circuit) := (circuits.circuit skillId).canExecute config now
  (allowed, circuits.set skillId circuit)

def recordSuccess (circuits : Circuits) (skillId : String) : Circuits :=
  circuits.set skillId (circuits.circuit skillId).recordSuccess

def recordFailure (config : CircuitBreakerConfig) (circuits : Circuits) (skillId : String)
    (now later : ℤ) : Circuits :=
  circuits.set skillId ((circuits.circuit skillId).recordFailure config now later)

def reset (circuits : Circuits) (skillId : String) : Circuits :=
  circuits.set skillId (circuits.circuit skillId).reset

end Circuits

/-- An allowed call is a probe if it was allowed in the half-open state. -/
inductive AllowedCall
  | regular
  | probe
  deriving DecidableEq

inductive CallOutcome
  | success
  | failure
  deriving DecidableEq

/-- What has happened to a skill: its outstanding calls, its recorded outcomes, the newest first,
and its last opening unless it was reset since. -/
structure SkillHistory where
  calls : List AllowedCall := []
  outcomes : List CallOutcome := []
  opening : Option ℤ := none

structure BreakerWorld where
  circuits : Circuits
  now : ℤ
  history : String → SkillHistory

namespace BreakerWorld

def circuit (w : BreakerWorld) (skillId : String) : CircuitEntry := w.circuits.circuit skillId

variable (config : CircuitBreakerConfig)

def canExecute (w : BreakerWorld) (skillId : String) (now : ℤ) : BreakerWorld :=
  let (allowed, circuits) := w.circuits.canExecute config skillId now
  let call := if (circuits.circuit skillId).state = .halfOpen then .probe else .regular
  let h := w.history skillId
  { circuits := circuits
    now := now
    history := Function.update w.history skillId
      { h with calls := if allowed then h.calls ++ [call] else h.calls } }

def recordSuccess (w : BreakerWorld) (skillId : String) (i : ℕ) : BreakerWorld :=
  let h := w.history skillId
  { w with
    circuits := w.circuits.recordSuccess skillId
    history := Function.update w.history skillId
      { h with calls := h.calls.eraseIdx i, outcomes := .success :: h.outcomes } }

def recordFailure (w : BreakerWorld) (skillId : String) (i : ℕ) (now later : ℤ) : BreakerWorld :=
  let h := w.history skillId
  { circuits := w.circuits.recordFailure config skillId now later
    now := later
    history := Function.update w.history skillId
      { calls := h.calls.eraseIdx i
        outcomes := .failure :: h.outcomes
        opening := if (w.circuit skillId).opens config then some later else h.opening } }

def reset (w : BreakerWorld) (skillId : String) : BreakerWorld :=
  { w with
    circuits := w.circuits.reset skillId
    history := Function.update w.history skillId { w.history skillId with opening := none } }

end BreakerWorld

inductive BreakerAction
  | canExecute (skillId : String) (now : ℤ)
  /-- The outcome of an outstanding call of the skill, given by its place among them. -/
  | recordSuccess (skillId : String) (i : ℕ)
  | recordFailure (skillId : String) (i : ℕ) (now later : ℤ)
  | reset (skillId : String)

def breakerMachine (config : CircuitBreakerConfig) (start : ℤ) :
    Machine BreakerWorld BreakerAction where
  init := ⟨.empty, start, fun _ => {}⟩
  step w
    | .canExecute skillId now => if w.now ≤ now then some (w.canExecute config skillId now) else none
    | .recordSuccess skillId i =>
        if i < (w.history skillId).calls.length then some (w.recordSuccess skillId i) else none
    | .recordFailure skillId i now later =>
        if i < (w.history skillId).calls.length ∧ w.now ≤ now ∧ now ≤ later then
          some (w.recordFailure config skillId i now later)
        else none
    | .reset skillId => some (w.reset skillId)

/-! ## The law of the breaker -/

/-- The number of failures since the last success. -/
def trailingFailures (outcomes : List CallOutcome) : ℕ :=
  (outcomes.takeWhile fun outcome => outcome = .failure).length

/-- What the breaker owes its callers in a state. -/
structure BreakerLaw (config : CircuitBreakerConfig) (w : BreakerWorld) : Prop where
  /-- One call at a time in the half-open state. -/
  oneProbe : ∀ skillId, (w.circuit skillId).state = .halfOpen →
    (w.history skillId).calls.length ≤ 1
  /-- No call is allowed before the time to wait is over. -/
  refuses : ∀ skillId opened now, (w.history skillId).opening = some opened → w.now ≤ now →
    (Number.ofInt (now - opened)).lt config.timeout = true →
    (w.circuits.canExecute config skillId now).1 = false
  /-- A step opens a circuit only if it records enough failures in a row or that of a probe. -/
  opens : ∀ start action w', (breakerMachine config start).step w action = some w' →
    ∀ skillId, (w.circuit skillId).state ≠ .opened → (w'.circuit skillId).state = .opened →
    ∃ i now later, action = .recordFailure skillId i now later ∧
      (config.threshold.le (.ofInt (trailingFailures (w'.history skillId).outcomes)) = true ∨
        (w.circuit skillId).state = .halfOpen ∧ (w.history skillId).calls[i]? = some .probe)

/-- A call that would go through as a probe is asked for only when no call is outstanding. -/
def ProbesAlone (config : CircuitBreakerConfig) (w : BreakerWorld) : BreakerAction → Prop
  | .canExecute skillId now =>
      (w.circuit skillId).state = .halfOpen ∨
        (w.circuit skillId).state = .opened ∧ (w.circuit skillId).elapsed config now = true →
      (w.history skillId).calls = []
  | .recordSuccess _ _ | .recordFailure _ _ _ _ | .reset _ => True

instance (config : CircuitBreakerConfig) (w : BreakerWorld) (action : BreakerAction) :
    Decidable (ProbesAlone config w action) := by
  cases action <;> simp only [ProbesAlone] <;> infer_instance

/-- The account of one skill: the counted failures are the last outcomes, and the circuit stays
open until the time to wait is over. -/
structure CircuitAccount (config : CircuitBreakerConfig) (now : ℤ) (circuit : CircuitEntry)
    (h : SkillHistory) : Prop where
  counted : circuit.failures ≤ trailingFailures h.outcomes
  waiting : ∀ opened, h.opening = some opened →
    (Number.ofInt (now - opened)).lt config.timeout = true →
    circuit.state = .opened ∧ circuit.openedAt = opened

/-- Only a probe is outstanding in the half-open state. -/
def ProbeAlone (circuit : CircuitEntry) (h : SkillHistory) : Prop :=
  circuit.state = .halfOpen → h.calls.length ≤ 1 ∧ ∀ call ∈ h.calls, call = .probe

section Laws

variable {config : CircuitBreakerConfig} {w w' : BreakerWorld} {now later : ℤ}
  {circuit : CircuitEntry} {h : SkillHistory} {skillId : String}

/-! ## One circuit -/

theorem trailingFailures_failure (outcomes : List CallOutcome) :
    trailingFailures (.failure :: outcomes) = trailingFailures outcomes + 1 := by
  simp [trailingFailures]

/-- A wait that is not over has not elapsed. -/
theorem elapsed_eq_false
    (hlt : (Number.ofInt (now - circuit.openedAt)).lt config.timeout = true) :
    circuit.elapsed config now = false :=
  Number.le_eq_false_of_lt hlt

theorem CircuitAccount.mono (hacc : CircuitAccount config now circuit h) (hle : now ≤ later) :
    CircuitAccount config later circuit h :=
  ⟨hacc.counted, fun opened hopened hlt =>
    hacc.waiting opened hopened (Number.ofInt_lt_of_le (Int.sub_le_sub_right hle _) hlt)⟩

/-! ## What each call does to its circuit -/

theorem CircuitAccount.canExecute (hacc : CircuitAccount config now circuit h) (hle : now ≤ later)
    (calls : List AllowedCall) :
    CircuitAccount config later (circuit.canExecute config later).2 { h with calls := calls } := by
  have hlater := hacc.mono hle
  refine ⟨?_, fun opened hopened hlt => ?_⟩
  · unfold CircuitEntry.canExecute
    split
    · exact hacc.counted
    · split <;> exact hacc.counted
    · exact hacc.counted
  · obtain ⟨hstate, rfl⟩ := hlater.waiting opened hopened hlt
    -- the wait is not over, so the circuit is left as it is
    simp only [CircuitEntry.canExecute, hstate, elapsed_eq_false hlt, Bool.false_eq_true, if_false]
    exact ⟨trivial, trivial⟩

theorem CircuitAccount.recordSuccess (hacc : CircuitAccount config now circuit h)
    (calls : List AllowedCall) :
    CircuitAccount config now circuit.recordSuccess
      { h with calls := calls, outcomes := .success :: h.outcomes } := by
  unfold CircuitEntry.recordSuccess
  refine ⟨?_, fun opened hopened hlt => ?_⟩
  · dsimp only
    split <;> exact Nat.zero_le _
  · obtain ⟨hstate, hat⟩ := hacc.waiting opened hopened hlt
    simp only [hstate, reduceCtorEq, if_false]
    exact ⟨trivial, hat⟩

/-- The circuit after a failure. -/
theorem recordFailure_eq (circuit : CircuitEntry) (now later : ℤ) :
    circuit.recordFailure config now later =
      { circuit with
        state := if circuit.opens config then .opened else circuit.state
        failures := circuit.failures + 1
        lastFailureAt := now
        openedAt := if circuit.opens config then later else circuit.openedAt
        totalCalls := circuit.totalCalls + 1 } := by
  unfold CircuitEntry.recordFailure CircuitEntry.opens
  by_cases hhalf : circuit.state = .halfOpen
  · simp [hhalf]
  · by_cases hfull : config.threshold.le (.ofInt (circuit.failures + 1)) = true <;>
      simp [hhalf, hfull]

theorem CircuitAccount.recordFailure (hacc : CircuitAccount config now circuit h)
    (hle : now ≤ later) (calls : List AllowedCall) (lastFailureAt : ℤ) :
    CircuitAccount config later (circuit.recordFailure config lastFailureAt later)
      { calls := calls
        outcomes := .failure :: h.outcomes
        opening := if circuit.opens config then some later else h.opening } := by
  rw [recordFailure_eq]
  refine ⟨?_, fun opened hopened hlt => ?_⟩
  · rw [trailingFailures_failure]
    exact Nat.succ_le_succ hacc.counted
  · by_cases hopens : circuit.opens config = true
    · simp only [hopens, if_true] at hopened ⊢
      exact ⟨trivial, Option.some.inj hopened⟩
    · simp only [hopens] at hopened ⊢
      exact (hacc.mono hle).waiting opened hopened hlt

theorem circuitAccount_reset (circuit : CircuitEntry) (h : SkillHistory) :
    CircuitAccount config now circuit.reset { h with opening := none } :=
  ⟨Nat.zero_le _, fun _ hopened => by cases hopened⟩

theorem recordSuccess_state_ne (circuit : CircuitEntry) :
    circuit.recordSuccess.state ≠ .halfOpen := by
  unfold CircuitEntry.recordSuccess
  dsimp only
  split
  · exact CircuitState.noConfusion
  · assumption

theorem recordFailure_state_ne (circuit : CircuitEntry) (now later : ℤ) :
    (circuit.recordFailure config now later).state ≠ .halfOpen := by
  rw [recordFailure_eq]
  by_cases hopens : circuit.opens config = true
  · simp [hopens]
  · rw [if_neg hopens]
    intro hhalf
    have hstate : circuit.state = .halfOpen := hhalf
    exact hopens (by simp [CircuitEntry.opens, hstate])

/-- A call that leaves the circuit half open went through as a probe. -/
theorem canExecute_halfOpen (hhalf : (circuit.canExecute config now).2.state = .halfOpen) :
    (circuit.canExecute config now).1 = true ∧
      (circuit.state = .halfOpen ∨ circuit.state = .opened ∧ circuit.elapsed config now = true) := by
  unfold CircuitEntry.canExecute at hhalf ⊢
  cases hstate : circuit.state with
  | closed => simp [hstate] at hhalf
  | halfOpen => exact ⟨rfl, .inl rfl⟩
  | opened =>
      by_cases helapsed : circuit.elapsed config now = true
      · simp [helapsed]
      · simp [hstate, helapsed] at hhalf

/-! ## What each call preserves of all circuits -/

@[simp] theorem circuit_set (circuits : Circuits) (skillId other : String) (circuit : CircuitEntry) :
    Circuits.circuit (circuits.set skillId circuit) other =
      if other = skillId then circuit else circuits.circuit other := by
  unfold Circuits.circuit
  rw [InsertionMap.get_set]
  split <;> rfl

/-- A call changes the circuit and the history of one skill. -/
theorem forall_skill {P : CircuitEntry → SkillHistory → Prop} {circuits : Circuits}
    {history : String → SkillHistory} (hrest : ∀ other, P (circuits.circuit other) (history other))
    (hskill : P circuit h) (other : String) :
    P (Circuits.circuit (circuits.set skillId circuit) other)
      (Function.update history skillId h other) := by
  rw [circuit_set]
  by_cases hother : other = skillId
  · subst hother
    rw [if_pos rfl, Function.update_self]
    exact hskill
  · rw [if_neg hother, Function.update_of_ne hother]
    exact hrest other

/-- The account of every skill. -/
def Accounts (config : CircuitBreakerConfig) (w : BreakerWorld) : Prop :=
  ∀ skillId, CircuitAccount config w.now (w.circuit skillId) (w.history skillId)

theorem Accounts.step {start : ℤ} {action : BreakerAction} (hw : Accounts config w)
    (hstep : (breakerMachine config start).step w action = some w') : Accounts config w' := by
  cases action with
  | canExecute skillId now =>
      obtain ⟨hle, rfl⟩ := Option.ite_none_right_eq_some.mp hstep |>.imp id Option.some.inj
      exact forall_skill (fun other => (hw other).mono hle) ((hw skillId).canExecute hle _)
  | recordSuccess skillId i =>
      obtain ⟨-, rfl⟩ := Option.ite_none_right_eq_some.mp hstep |>.imp id Option.some.inj
      exact forall_skill hw ((hw skillId).recordSuccess _)
  | recordFailure skillId i now later =>
      obtain ⟨⟨-, hnow, hlater⟩, rfl⟩ :=
        Option.ite_none_right_eq_some.mp hstep |>.imp id Option.some.inj
      have hle := hnow.trans hlater
      exact forall_skill (fun other => (hw other).mono hle)
        ((hw skillId).recordFailure hle _ now)
  | reset skillId =>
      obtain rfl := Option.some.inj hstep
      exact forall_skill hw (circuitAccount_reset _ _)

theorem accounts_of_reachable {start : ℤ} (hw : (breakerMachine config start).Reachable w) :
    Accounts config w := by
  refine Machine.Reachable.invariant (fun skillId => ?_) (fun _ _ _ h hs => h.step hs) hw
  exact ⟨Nat.zero_le _, fun _ hopened => by cases hopened⟩

theorem canExecute_circuit (w : BreakerWorld) (skillId : String) (now : ℤ) :
    (w.canExecute config skillId now).circuit skillId =
      ((w.circuit skillId).canExecute config now).2 := by
  rw [BreakerWorld.circuit, BreakerWorld.canExecute, Circuits.canExecute, circuit_set, if_pos rfl]
  rfl

/-- An allowed call that leaves the circuit half open is outstanding as a probe. -/
theorem probe_calls
    (hallowed : ((w.circuit skillId).canExecute config now).1 = true)
    (hhalf : ((w.canExecute config skillId now).circuit skillId).state = .halfOpen) :
    ((w.canExecute config skillId now).history skillId).calls =
      (w.history skillId).calls ++ [.probe] := by
  have hanswer : (w.circuits.canExecute config skillId now).1 = true := hallowed
  have hafter : (Circuits.circuit (w.circuits.canExecute config skillId now).2 skillId).state =
      .halfOpen := hhalf
  simp only [BreakerWorld.canExecute, Function.update_self, hanswer, hafter, if_true]

/-- Under the condition only a probe is outstanding in the half-open state of any skill. -/
theorem probeAlone_step {start : ℤ} {action : BreakerAction}
    (hw : ∀ skillId, ProbeAlone (w.circuit skillId) (w.history skillId))
    (halone : ProbesAlone config w action)
    (hstep : (breakerMachine config start).step w action = some w') :
    ∀ skillId, ProbeAlone (w'.circuit skillId) (w'.history skillId) := by
  cases action with
  | canExecute skillId now =>
      obtain ⟨-, rfl⟩ := Option.ite_none_right_eq_some.mp hstep |>.imp id Option.some.inj
      intro other
      by_cases hother : other = skillId
      · subst hother
        intro hhalf
        have hboth := canExecute_circuit w other now ▸ hhalf
        -- the circuit is half open now, so the call is its probe
        obtain ⟨hallowed, hprobe⟩ := canExecute_halfOpen hboth
        rw [probe_calls hallowed hhalf, halone hprobe]
        exact ⟨le_rfl, fun call hcall => List.mem_singleton.mp hcall⟩
      · have hcircuit : (w.canExecute config skillId now).circuit other = w.circuit other :=
          (circuit_set _ _ _ _).trans (if_neg hother)
        have hhistory : (w.canExecute config skillId now).history other = w.history other :=
          Function.update_of_ne hother _ _
        rw [hcircuit, hhistory]
        exact hw other
  | recordSuccess skillId i =>
      obtain ⟨-, rfl⟩ := Option.ite_none_right_eq_some.mp hstep |>.imp id Option.some.inj
      exact forall_skill hw fun hhalf => absurd hhalf (recordSuccess_state_ne _)
  | recordFailure skillId i now later =>
      obtain ⟨-, rfl⟩ := Option.ite_none_right_eq_some.mp hstep |>.imp id Option.some.inj
      exact forall_skill hw fun hhalf => absurd hhalf (recordFailure_state_ne _ now later)
  | reset skillId =>
      obtain rfl := Option.some.inj hstep
      exact forall_skill hw fun hhalf => by cases hhalf

/-! ## The law in a state -/

/-- Before the time to wait is over a call is refused. -/
theorem CircuitAccount.refuses (hacc : CircuitAccount config now circuit h) {opened : ℤ}
    (hopened : h.opening = some opened)
    (hlt : (Number.ofInt (now - opened)).lt config.timeout = true) :
    (circuit.canExecute config now).1 = false := by
  obtain ⟨hstate, rfl⟩ := hacc.waiting opened hopened hlt
  simp [CircuitEntry.canExecute, hstate, elapsed_eq_false hlt]

theorem recordSuccess_opened (hopened : circuit.recordSuccess.state = .opened) :
    circuit.state = .opened := by
  unfold CircuitEntry.recordSuccess at hopened
  dsimp only at hopened
  split at hopened
  · cases hopened
  · exact hopened

theorem canExecute_opened (hopened : (circuit.canExecute config now).2.state = .opened) :
    circuit.state = .opened := by
  unfold CircuitEntry.canExecute at hopened
  split at hopened
  · exact hopened
  · assumption
  · exact hopened

/-- A failure opens a circuit after enough of them in a row or in the half-open state. -/
theorem CircuitAccount.opens (hacc : CircuitAccount config now circuit h)
    (hclosed : circuit.state ≠ .opened) {at₁ at₂ : ℤ}
    (hopened : (circuit.recordFailure config at₁ at₂).state = .opened) :
    config.threshold.le (.ofInt (trailingFailures (.failure :: h.outcomes))) = true ∨
      circuit.state = .halfOpen := by
  rw [recordFailure_eq] at hopened
  by_cases hopens : circuit.opens config = true
  · rcases (Bool.or_eq_true _ _).mp hopens with hhalf | hfull
    · exact .inr (of_decide_eq_true hhalf)
    · refine .inl (Number.le_ofInt_of_le ?_ hfull)
      rw [trailingFailures_failure]
      exact_mod_cast Nat.succ_le_succ hacc.counted
  · simp only [hopens] at hopened
    exact absurd hopened hclosed

/-- Where the call leaves no new open circuit for its skill, it leaves none at all. -/
theorem opened_of_set
    (hself : circuit.state = .opened → (w.circuit skillId).state = .opened) {other : String}
    (hopened : (Circuits.circuit (w.circuits.set skillId circuit) other).state = .opened) :
    (w.circuit other).state = .opened := by
  rw [circuit_set] at hopened
  by_cases hother : other = skillId
  · rw [if_pos hother] at hopened
    exact hother ▸ hself hopened
  · rwa [if_neg hother] at hopened

theorem opens_of_account {start : ℤ} {action : BreakerAction} (hacc : Accounts config w)
    (hprobes : ∀ skillId, ProbeAlone (w.circuit skillId) (w.history skillId))
    (hstep : (breakerMachine config start).step w action = some w')
    (hclosed : (w.circuit skillId).state ≠ .opened)
    (hopened : (w'.circuit skillId).state = .opened) :
    ∃ i now later, action = .recordFailure skillId i now later ∧
      (config.threshold.le (.ofInt (trailingFailures (w'.history skillId).outcomes)) = true ∨
        (w.circuit skillId).state = .halfOpen ∧ (w.history skillId).calls[i]? = some .probe) := by
  cases action with
  | canExecute other now =>
      obtain ⟨-, rfl⟩ := Option.ite_none_right_eq_some.mp hstep |>.imp id Option.some.inj
      exact absurd (opened_of_set canExecute_opened hopened) hclosed
  | recordSuccess other i =>
      obtain ⟨-, rfl⟩ := Option.ite_none_right_eq_some.mp hstep |>.imp id Option.some.inj
      exact absurd (opened_of_set recordSuccess_opened hopened) hclosed
  | reset other =>
      obtain rfl := Option.some.inj hstep
      exact absurd (opened_of_set (fun h => by cases h) hopened) hclosed
  | recordFailure other i now later =>
      obtain ⟨⟨hi, -⟩, rfl⟩ := Option.ite_none_right_eq_some.mp hstep |>.imp id Option.some.inj
      by_cases hother : skillId = other
      · subst hother
        refine ⟨i, now, later, rfl, ?_⟩
        rw [BreakerWorld.circuit, BreakerWorld.recordFailure, Circuits.recordFailure, circuit_set,
          if_pos rfl] at hopened
        -- the threshold is reached, or the probe failed
        rcases (hacc skillId).opens hclosed hopened with hfull | hhalf
        · refine .inl ?_
          have houtcomes : ((w.recordFailure config skillId i now later).history skillId).outcomes =
              .failure :: (w.history skillId).outcomes := by
            simp only [BreakerWorld.recordFailure, Function.update_self]
          rw [houtcomes]
          exact hfull
        · refine .inr ⟨hhalf, ?_⟩
          rw [List.getElem?_eq_getElem hi]
          exact congrArg some ((hprobes skillId hhalf).2 _ (List.getElem_mem hi))
      · rw [BreakerWorld.circuit, BreakerWorld.recordFailure, Circuits.recordFailure, circuit_set,
          if_neg hother] at hopened
        exact absurd hopened hclosed

/-- Where probes are asked for only when no call is outstanding, the breaker keeps its law. -/
theorem breaker_law (config : CircuitBreakerConfig) (start : ℤ) {w : BreakerWorld}
    (hw : (breakerMachine config start).ReachableUnder (ProbesAlone config) w) :
    BreakerLaw config w := by
  have hacc : Accounts config w := accounts_of_reachable hw.reachable
  have hprobes : ∀ skillId, ProbeAlone (w.circuit skillId) (w.history skillId) := by
    refine Machine.ReachableUnder.invariant (I := fun w => ∀ skillId,
      ProbeAlone (w.circuit skillId) (w.history skillId)) ?_ ?_ hw
    · exact fun skillId hhalf => by cases hhalf
    · exact fun _ _ _ h halone hstep => probeAlone_step h halone hstep
  refine ⟨fun skillId hhalf => (hprobes skillId hhalf).1, fun skillId opened now hopened hle hlt => ?_,
    fun _ _ _ hstep skillId hclosed hopened => opens_of_account hacc hprobes hstep hclosed hopened⟩
  exact ((hacc skillId).mono hle).refuses hopened hlt

end Laws

/-! ## One probe and two -/

/-- A circuit that opens at the first failure. -/
def strictBreaker : CircuitBreakerConfig where
  failureThreshold := some (.ofInt 1)

/-- A skill that fails, waits and is probed by one call. -/
theorem breaker_law_probe :
    ∃ w, (w.circuit "summarize").state = .halfOpen ∧
      (w.history "summarize").calls = [.probe] ∧ BreakerLaw strictBreaker w := by
  have hrun : ((breakerMachine strictBreaker 0).runFrom (breakerMachine strictBreaker 0).init
      [.canExecute "summarize" 10, .recordFailure "summarize" 0 20 20,
        .canExecute "summarize" 30, .canExecute "summarize" 60020]).map (fun w =>
        ((w.circuit "summarize").state, (w.history "summarize").calls)) =
      some (.halfOpen, [.probe]) := by
    decide +kernel
  have hmeets : (breakerMachine strictBreaker 0).Meets (ProbesAlone strictBreaker)
      (breakerMachine strictBreaker 0).init
      [.canExecute "summarize" 10, .recordFailure "summarize" 0 20 20,
        .canExecute "summarize" 30, .canExecute "summarize" 60020] := by
    decide +kernel
  obtain ⟨w, hw, hview⟩ := Option.map_eq_some_iff.mp hrun
  obtain ⟨hstate, hcalls⟩ := Prod.mk.inj hview
  exact ⟨w, hstate, hcalls, breaker_law strictBreaker 0 (.runFrom .init hmeets hw)⟩

/-- Five failures open the circuit; a minute later two calls go through at once. -/
theorem two_probes :
    ∃ w, (breakerMachine {} 0).Reachable w ∧ (w.circuit "summarize").state = .halfOpen ∧
      (w.history "summarize").calls = [.probe, .probe] ∧ ¬ BreakerLaw {} w := by
  have hrun : ((breakerMachine {} 0).runFrom (breakerMachine {} 0).init
      (List.replicate 5 (.canExecute "summarize" 0) ++
        List.replicate 5 (.recordFailure "summarize" 0 10 10) ++
        [.canExecute "summarize" 60010, .canExecute "summarize" 60011])).map (fun w =>
        ((w.circuit "summarize").state, (w.history "summarize").calls)) =
      some (.halfOpen, [.probe, .probe]) := by
    decide +kernel
  obtain ⟨w, hw, hview⟩ := Option.map_eq_some_iff.mp hrun
  obtain ⟨hstate, hcalls⟩ := Prod.mk.inj hview
  refine ⟨w, Machine.reachable_of_runFrom hw, hstate, hcalls, fun hlaw => ?_⟩
  have hone := hlaw.oneProbe "summarize" hstate
  rw [hcalls] at hone
  exact absurd hone (by decide)

end ThinkLocal.Skills
