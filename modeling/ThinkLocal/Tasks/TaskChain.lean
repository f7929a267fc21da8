import ThinkLocal.Js.Number

/-!
# Task chains

`executeChain` of `task-chain.ts`.  A reported failure leaves the loop with the later steps
skipped, but a step with `onlyOnSuccess: false` is left out of the result; a thrown failure leaves
it at once, without any of the later steps.
-/

namespace ThinkLocal.Tasks

open Js (Number)

/-! ## Steps and results -/

structure ChainStep (Value : Type) where
  skillId : String
  input : Option (List (String × Value))
  targetAgent : Option String
  timeoutMs : Option Number
  onlyOnSuccess : Option Bool

/-- The input of a call: the fields of the step and the three fields that the chain sets over
them. -/
structure ChainInput (Value : Type) where
  own : List (String × Value)
  previousResult : Value
  chainId : String
  stepIndex : ℕ

structure ChainCall (Value : Type) where
  skillId : String
  input : ChainInput Value
  targetAgent : Option String
  timeoutMs : Number

/-- How a call of the executor ends.  It may throw a value that has no text `String(err)`. -/
inductive StepOutcome (Value : Type)
  | success (result : Value)
  | failure (error : Option String)
  | threw (text : Option String)

inductive ChainStepStatus
  | completed
  | failed
  | skipped
  deriving DecidableEq, Repr

inductive ChainStatus
  | completed
  | failed
  | partially
  deriving DecidableEq, Repr

structure ChainStepResult (Value : Type) where
  skillId : String
  status : ChainStepStatus
  result : Option Value := none
  error : Option String := none
  durationMs : ℤ

structure ChainResult (Value : Type) where
  chainId : String
  status : ChainStatus
  steps : List (ChainStepResult Value)
  totalDurationMs : ℤ

def StepOutcome.status {Value : Type} : StepOutcome Value → ChainStepStatus
  | success _ => .completed
  | failure _ | threw _ => .failed

/-! ## The loop -/

/-- What is given to a chain besides its steps: the drawn id, the executor and the durations that
the clock gives. -/
structure ChainDeps (Value : Type) where
  chainId : String
  null : Value
  executor : ChainCall Value → StepOutcome Value
  durationMs : ℕ → ℤ
  totalDurationMs : ℤ

/-- What the loop does from a step on: its calls and, unless it rejects, the entries that it adds
and the status. -/
structure ChainTail (Value : Type) where
  calls : List (ChainCall Value)
  ending : Option (List (ChainStepResult Value) × ChainStatus)

section Loop

variable {Value : Type} (deps : ChainDeps Value)

def chainCall (i : ℕ) (lastResult : Value) (step : ChainStep Value) : ChainCall Value where
  skillId := step.skillId
  input :=
    { own := step.input.getD [], previousResult := lastResult, chainId := deps.chainId
      stepIndex := i }
  targetAgent := step.targetAgent
  timeoutMs := step.timeoutMs.getD (.ofInt 30000)

/-- The entries of the steps after a reported failure. -/
def skippedSteps (rest : List (ChainStep Value)) : List (ChainStepResult Value) :=
  (rest.filter fun step => step.onlyOnSuccess.getD true).map fun step =>
    { skillId := step.skillId, status := .skipped, durationMs := 0 }

def chainFrom (i : ℕ) (lastResult : Value) : List (ChainStep Value) → ChainTail Value
  | [] => ⟨[], some ([], .completed)⟩
  | step :: rest =>
      let call := chainCall deps i lastResult step
      match deps.executor call with
      | .success result =>
          let tail := chainFrom (i + 1) result rest
          let entry : ChainStepResult Value :=
            { skillId := step.skillId, status := .completed, result := some result
              durationMs := deps.durationMs i }
          ⟨call :: tail.calls, tail.ending.map fun (entries, status) => (entry :: entries, status)⟩
      | .failure error =>
          let entry : ChainStepResult Value :=
            { skillId := step.skillId, status := .failed, error := error
              durationMs := deps.durationMs i }
          ⟨[call], some (entry :: skippedSteps rest, .partially)⟩
      | .threw (some text) =>
          let entry : ChainStepResult Value :=
            { skillId := step.skillId, status := .failed, error := some text
              durationMs := deps.durationMs i }
          ⟨[call], some ([entry], .failed)⟩
      | .threw none => ⟨[call], none⟩

/-- `none` is a rejection. -/
def executeChain (steps : List (ChainStep Value)) : Option (ChainResult Value) :=
  (chainFrom deps 0 deps.null steps).ending.map fun (entries, status) =>
    { chainId := deps.chainId, status := status, steps := entries
      totalDurationMs := deps.totalDurationMs }

/-- The calls of the executor, in their order. -/
def chainCalls (steps : List (ChainStep Value)) : List (ChainCall Value) :=
  (chainFrom deps 0 deps.null steps).calls

/-! ## The law of a chain -/

/-- The result that the call at a position of the list gets from the one before it. -/
def PreviousResult (first : Value) (calls : List (ChainCall Value)) : ℕ → Value → Prop
  | 0, value => value = first
  | j + 1, value => ∃ call, calls[j]? = some call ∧ deps.executor call = .success value

/-- The steps up to the first failure are called, each with the result of the one before. -/
structure CallsInOrder (i : ℕ) (lastResult : Value) (steps : List (ChainStep Value))
    (calls : List (ChainCall Value)) : Prop where
  call : ∀ (j : ℕ) call, calls[j]? = some call → ∃ step previous, steps[j]? = some step ∧
    PreviousResult deps lastResult calls j previous ∧ call = chainCall deps (i + j) previous step
  succeeded : ∀ j < calls.length - 1, ∃ value, PreviousResult deps lastResult calls (j + 1) value
  /-- The calls end with the last step or with a failure. -/
  last : calls.length = steps.length ∨
    ∃ call, calls.getLast? = some call ∧ (deps.executor call).status = .failed

/-- Every step has its entry: completed or failed as its call ended, skipped without one. -/
structure EntriesInOrder (steps : List (ChainStep Value)) (calls : List (ChainCall Value))
    (entries : List (ChainStepResult Value)) : Prop where
  skills : entries.map (·.skillId) = steps.map (·.skillId)
  status : ∀ (j : ℕ) entry, entries[j]? = some entry → entry.status =
    ((calls[j]?).map fun call => (deps.executor call).status).getD .skipped

/-- The whole account of a chain. -/
structure ChainLaw (steps : List (ChainStep Value)) : Prop where
  calls : CallsInOrder deps 0 deps.null steps (chainCalls deps steps)
  result : ∃ result, executeChain deps steps = some result ∧
    EntriesInOrder deps steps (chainCalls deps steps) result.steps ∧
    (result.status = .completed → ∀ entry ∈ result.steps, entry.status = .completed)

/-- No step is lost: the first failure is the last step, or it is reported and every later step
runs only on success. -/
def NothingLost (i : ℕ) (lastResult : Value) : List (ChainStep Value) → Prop
  | [] => True
  | step :: rest =>
      match deps.executor (chainCall deps i lastResult step) with
      | .success result => NothingLost (i + 1) result rest
      | .failure _ => ∀ later ∈ rest, later.onlyOnSuccess ≠ some false
      | .threw text => text ≠ none ∧ rest = []

end Loop

section Law

variable {Value : Type} {deps : ChainDeps Value} {i : ℕ} {lastResult : Value}
  {step : ChainStep Value} {rest steps : List (ChainStep Value)}

/-! ## The calls -/

theorem CallsInOrder.single (hfailed : (deps.executor (chainCall deps i lastResult step)).status =
    .failed) : CallsInOrder deps i lastResult (step :: rest) [chainCall deps i lastResult step] := by
  refine ⟨fun j call hcall => ?_, fun j hj => absurd hj (by simp), .inr ⟨_, rfl, hfailed⟩⟩
  cases j with
  | zero => exact ⟨step, lastResult, rfl, rfl, (Option.some.inj hcall).symm⟩
  | succ j => simp at hcall

/-- The calls after a success are in order after the one that succeeded. -/
theorem CallsInOrder.cons {result : Value} {calls : List (ChainCall Value)}
    (hsuccess : deps.executor (chainCall deps i lastResult step) = .success result)
    (h : CallsInOrder deps (i + 1) result rest calls) :
    CallsInOrder deps i lastResult (step :: rest) (chainCall deps i lastResult step :: calls) := by
  have hprevious : ∀ {j value}, PreviousResult deps result calls j value →
      PreviousResult deps lastResult (chainCall deps i lastResult step :: calls) (j + 1) value := by
    intro j value hvalue
    cases j with
    | zero =>
        obtain rfl : value = result := hvalue
        exact ⟨_, rfl, hsuccess⟩
    | succ j => exact hvalue
  refine ⟨fun j call hcall => ?_, fun j hj => ?_, ?_⟩
  · cases j with
    | zero => exact ⟨step, lastResult, rfl, rfl, (Option.some.inj hcall).symm⟩
    | succ j =>
        obtain ⟨step', previous, hstep, hvalue, rfl⟩ := h.call j call hcall
        exact ⟨step', previous, hstep, hprevious hvalue, by rw [Nat.add_right_comm, Nat.add_assoc]⟩
  · cases j with
    | zero => exact ⟨result, _, rfl, hsuccess⟩
    | succ j =>
        obtain ⟨value, hvalue⟩ := h.succeeded j (by simp at hj; omega)
        exact ⟨value, hvalue⟩
  · rcases h.last with hlength | ⟨call, hlast, hfailed⟩
    · exact .inl (congrArg Nat.succ hlength)
    · refine .inr ⟨call, ?_, hfailed⟩
      rw [List.getLast?_cons, hlast]
      rfl

theorem callsInOrder_chainFrom (deps : ChainDeps Value) (i : ℕ) (lastResult : Value)
    (steps : List (ChainStep Value)) :
    CallsInOrder deps i lastResult steps (chainFrom deps i lastResult steps).calls := by
  induction steps generalizing i lastResult with
  | nil => exact ⟨fun j call h => by simp [chainFrom] at h, fun j hj => absurd hj (by simp [chainFrom]),
      .inl rfl⟩
  | cons step rest ih =>
      rw [chainFrom]
      cases houtcome : deps.executor (chainCall deps i lastResult step) with
      | success result => exact .cons houtcome (ih (i + 1) result)
      | failure error => exact .single (by rw [houtcome]; rfl)
      | threw text => cases text <;> exact .single (by rw [houtcome]; rfl)

/-! ## The entries -/

/-- Where every later step runs only on success, each of them has its entry. -/
theorem skippedSteps_eq (h : ∀ later ∈ rest, later.onlyOnSuccess ≠ some false) :
    skippedSteps rest = rest.map fun step =>
      { skillId := step.skillId, status := .skipped, durationMs := 0 } := by
  have hall : ∀ later ∈ rest, later.onlyOnSuccess.getD true = true := by
    intro later hlater
    have hne := h later hlater
    cases honly : later.onlyOnSuccess with
    | none => rfl
    | some only =>
        cases only with
        | true => rfl
        | false => exact absurd honly hne
  rw [skippedSteps, List.filter_eq_self.mpr hall]

/-- Entries are lost as soon as one of the later steps runs in any case. -/
theorem onlyOnSuccess_of_length (h : (skippedSteps rest).length = rest.length) :
    ∀ later ∈ rest, later.onlyOnSuccess ≠ some false := by
  rw [skippedSteps, List.length_map, List.length_filter_eq_length_iff] at h
  rintro later hlater hfalse
  have hkept := h later hlater
  rw [hfalse] at hkept
  cases hkept

theorem EntriesInOrder.skip {call : ChainCall Value} {entry : ChainStepResult Value}
    (hskill : entry.skillId = step.skillId) (hstatus : entry.status = (deps.executor call).status) :
    EntriesInOrder deps (step :: rest) [call] (entry :: rest.map fun step =>
      { skillId := step.skillId, status := .skipped, durationMs := 0 }) := by
  refine ⟨by simp [hskill], fun j entry' hentry => ?_⟩
  cases j with
  | zero =>
      obtain rfl := Option.some.inj hentry
      exact hstatus
  | succ j =>
      rw [List.getElem?_cons_succ, List.getElem?_map] at hentry
      obtain ⟨_, _, rfl⟩ := Option.map_eq_some_iff.mp hentry
      rfl

theorem EntriesInOrder.cons {call : ChainCall Value} {calls : List (ChainCall Value)}
    {entry : ChainStepResult Value} {entries : List (ChainStepResult Value)}
    (hskill : entry.skillId = step.skillId) (hstatus : entry.status = (deps.executor call).status)
    (h : EntriesInOrder deps rest calls entries) :
    EntriesInOrder deps (step :: rest) (call :: calls) (entry :: entries) := by
  refine ⟨by rw [List.map_cons, List.map_cons, hskill, h.skills], fun j entry' hentry => ?_⟩
  cases j with
  | zero =>
      obtain rfl := Option.some.inj hentry
      exact hstatus
  | succ j => exact h.status j entry' hentry

theorem entriesInOrder_chainFrom (h : NothingLost deps i lastResult steps) :
    ∃ entries status, (chainFrom deps i lastResult steps).ending = some (entries, status) ∧
      EntriesInOrder deps steps (chainFrom deps i lastResult steps).calls entries ∧
      (status = .completed → ∀ entry ∈ entries, entry.status = .completed) := by
  induction steps generalizing i lastResult with
  | nil => exact ⟨[], .completed, rfl, ⟨rfl, fun _ _ h => by cases h⟩, fun _ _ h => by cases h⟩
  | cons step rest ih =>
      rw [NothingLost] at h
      rw [chainFrom]
      cases houtcome : deps.executor (chainCall deps i lastResult step) with
      | success result =>
          rw [houtcome] at h
          obtain ⟨entries, status, hending, hentries, hcompleted⟩ := ih h
          dsimp only
          rw [hending]
          refine ⟨_, status, rfl, hentries.cons rfl (by rw [houtcome]; rfl), fun hstatus => ?_⟩
          exact List.forall_mem_cons.mpr ⟨rfl, hcompleted hstatus⟩
      | failure error =>
          rw [houtcome] at h
          dsimp only
          rw [skippedSteps_eq h]
          exact ⟨_, .partially, rfl, .skip rfl (by rw [houtcome]; rfl), fun h => by cases h⟩
      | threw text =>
          rw [houtcome] at h
          obtain ⟨htext, rfl⟩ := h
          obtain ⟨text, rfl⟩ := Option.ne_none_iff_exists'.mp htext
          exact ⟨_, .failed, rfl, .skip rfl (by rw [houtcome]; rfl), fun h => by cases h⟩

/-- A result with as many entries as there are steps has lost none. -/
theorem nothingLost_of_length {entries : List (ChainStepResult Value)} {status : ChainStatus}
    (hending : (chainFrom deps i lastResult steps).ending = some (entries, status))
    (hlength : entries.length = steps.length) : NothingLost deps i lastResult steps := by
  induction steps generalizing i lastResult entries with
  | nil => trivial
  | cons step rest ih =>
      rw [NothingLost]
      rw [chainFrom] at hending
      cases houtcome : deps.executor (chainCall deps i lastResult step) with
      | success result =>
          rw [houtcome] at hending
          obtain ⟨⟨later, status'⟩, htail, hcons⟩ := Option.map_eq_some_iff.mp hending
          obtain ⟨rfl, rfl⟩ := Prod.mk.inj hcons
          exact ih htail (Nat.succ.inj hlength)
      | failure error =>
          rw [houtcome] at hending
          obtain ⟨rfl, -⟩ := Prod.mk.inj (Option.some.inj hending)
          exact onlyOnSuccess_of_length (Nat.succ.inj hlength)
      | threw text =>
          rw [houtcome] at hending
          cases text with
          | none => cases hending
          | some text =>
              obtain ⟨rfl, -⟩ := Prod.mk.inj (Option.some.inj hending)
              exact ⟨Option.some_ne_none _, List.eq_nil_of_length_eq_zero (Nat.succ.inj hlength).symm⟩

theorem ChainLaw.nothingLost (hlaw : ChainLaw deps steps) :
    NothingLost deps 0 deps.null steps := by
  obtain ⟨result, hresult, hentries, -⟩ := hlaw.result
  obtain ⟨⟨entries, status⟩, hending, rfl⟩ := Option.map_eq_some_iff.mp hresult
  refine nothingLost_of_length hending ?_
  simpa using congrArg List.length hentries.skills

theorem chainLaw_of_nothingLost (h : NothingLost deps 0 deps.null steps) : ChainLaw deps steps := by
  obtain ⟨entries, status, hending, hentries, hcompleted⟩ := entriesInOrder_chainFrom h
  refine ⟨callsInOrder_chainFrom deps 0 deps.null steps,
    ⟨⟨deps.chainId, status, entries, deps.totalDurationMs⟩, ?_, hentries, hcompleted⟩⟩
  rw [executeChain, hending]
  rfl

/-- A chain accounts for all its steps exactly if none of them is lost: the first failure is the
last step, or it is reported and every later step runs only on success. -/
theorem chainLaw_iff (deps : ChainDeps Value) (steps : List (ChainStep Value)) :
    ChainLaw deps steps ↔ NothingLost deps 0 deps.null steps :=
  ⟨ChainLaw.nothingLost, chainLaw_of_nothingLost⟩

end Law

/-! ## Steps that are lost -/

/-- An executor whose first step reports a failure. -/
def failingChain : ChainDeps String where
  chainId := "chain"
  null := "null"
  executor call := if call.input.stepIndex = 0 then .failure (some "down") else .success "done"
  durationMs _ := 1
  totalDurationMs := 1

def chainStep (skillId : String) (onlyOnSuccess : Option Bool) : ChainStep String where
  skillId := skillId
  input := none
  targetAgent := none
  timeoutMs := none
  onlyOnSuccess := onlyOnSuccess

/-- The second step runs in any case and has no entry. -/
theorem step_without_entry :
    (executeChain failingChain [chainStep "query" none, chainStep "notify" (some false)]).map
      (fun result => result.steps.map fun entry => (entry.skillId, entry.status)) =
        some [("query", .failed)] ∧
    ¬ ChainLaw failingChain [chainStep "query" none, chainStep "notify" (some false)] := by
  refine ⟨by decide +kernel, fun hlaw => ?_⟩
  exact hlaw.nothingLost (chainStep "notify" (some false))
    (List.mem_singleton_self _) rfl

end ThinkLocal.Tasks
