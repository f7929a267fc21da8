import ThinkLocal.Foundation.Arena
import ThinkLocal.Foundation.Machine
import ThinkLocal.Tasks.TaskManager

/-!
# The task executor

`handleTaskRequest` of `task-executor.ts` between any other calls of the manager.  A handler may take
arbitrarily long, and what it ends with is told to the requester and to the event bus whether or not
the manager still takes it.
-/

namespace ThinkLocal.Tasks

open Foundation

/-! ## Place or refuse -/

/-- A dimension that was not measured, or not to a finite number, is `none`. -/
structure PlacementMetrics where
  ramUsedPercent : Option ℚ
  cpuLoad : Option ℚ
  agentCount : Option ℚ

structure PlacementLimits where
  refuseRamPercent : Option ℚ
  refuseCpuPercent : Option ℚ
  refuseAgentCount : Option ℚ

inductive PlacementLimit
  | ram
  | cpu
  | agents
deriving DecidableEq

def exceeds (value limit : Option ℚ) : Bool :=
  match value, limit with
  | some value, some limit => 0 < limit ∧ limit < value
  | _, _ => false

/-- The first limit that is exceeded. -/
def evaluatePlacementMetrics (metrics : PlacementMetrics) (limits : PlacementLimits) :
    Option PlacementLimit :=
  if exceeds metrics.ramUsedPercent limits.refuseRamPercent then some .ram
  else if exceeds metrics.cpuLoad limits.refuseCpuPercent then some .cpu
  else if exceeds metrics.agentCount limits.refuseAgentCount then some .agents
  else none

/-! ## Handling a request -/

inductive TaskEvent
  | refused (taskId skillId requester : String) (limit : PlacementLimit)
  | accepted (taskId skillId requester : String)
  | completed (taskId skillId : String)
  | failed (taskId skillId error : String)
deriving DecidableEq

structure TaskCall where
  taskId : String
  skillId : String
  requester : String

/-- What a call of `handleTaskRequest` ends with. -/
inductive TaskAnswer (Value : Type)
  | refused (limit : PlacementLimit)
  | declined (error : String)
  | result (result : Value)
  | error (error : String)
  /-- The promise is rejected. -/
  | thrown

def TaskAnswer.result? {Value : Type} : TaskAnswer Value → Option Value
  | .result value => some value
  | .refused _ | .declined _ | .error _ | .thrown => none

/-- A call that has ended, and what it has emitted. -/
structure HandledTask (Value : Type) where
  call : TaskCall
  events : List TaskEvent
  answer : TaskAnswer Value

/-- What a call waits for. -/
inductive TaskStage
  | measuring
  | running
deriving DecidableEq

/-- What a handler ends with. -/
inductive HandlerOutcome (Value : Type)
  /-- A listener of `task:completed` may throw. -/
  | resolved (result : Value) (listenerError : Option String)
  | rejected (error : String)

/-- Does a listener of `task:completed` throw? -/
def HandlerOutcome.listenerThrows {Value : Type} : HandlerOutcome Value → Bool
  | resolved _ listenerError => listenerError.isSome
  | rejected _ => false

structure ExecutorState (Value : Type) where
  tasks : TaskManager Value
  handlers : List String
  requests : Arena (TaskCall × TaskStage)
  handled : List (HandledTask Value)

namespace ExecutorState

variable {Value : Type}

def finish (s : ExecutorState Value) (call : TaskCall) (events : List TaskEvent)
    (answer : TaskAnswer Value) : ExecutorState Value :=
  { s with handled := ⟨call, events, answer⟩ :: s.handled }

/-- What comes after the capacity gate, up to the call of the handler; a listener of `task:accepted`
or the audit log may throw. -/
def start (s : ExecutorState Value) (agentId : String) (call : TaskCall) (throws : Bool) (now : Int) :
    ExecutorState Value :=
  if call.skillId ∉ s.handlers then
    s.finish call [] (.declined ("Skill '" ++ call.skillId ++ "' nicht verfuegbar"))
  else
    match s.tasks.accept call.taskId agentId now with
    | none => s.finish call [] (.declined "Task konnte nicht akzeptiert werden")
    | some (tasks, _) =>
        if throws then
          { s with tasks }.finish call [.accepted call.taskId call.skillId call.requester] .thrown
        else { s with tasks, requests := s.requests.alloc (call, .running) }

/-- What follows the measuring of the capacity gate. -/
def place (s : ExecutorState Value) (agentId : String) (limits : PlacementLimits) (call : TaskCall)
    (metrics : PlacementMetrics) (throws : Bool) (now : Int) : ExecutorState Value :=
  match evaluatePlacementMetrics metrics limits with
  | none => s.start agentId call throws now
  | some limit =>
      s.finish call [.refused call.taskId call.skillId call.requester limit] (.refused limit)

/-- The `catch` of the handler; a listener of `task:failed` may throw. -/
def failTask (s : ExecutorState Value) (call : TaskCall) (events : List TaskEvent) (error : String)
    (throws : Bool) (now : Int) : ExecutorState Value :=
  { s with tasks := s.tasks.after (s.tasks.fail call.taskId error now) }.finish call
    (events ++ [TaskEvent.failed call.taskId call.skillId error]) (if throws then .thrown else .error error)

/-- What follows the handler; the answers of `complete` and `fail` are not looked at. -/
def settle (s : ExecutorState Value) (call : TaskCall) (outcome : HandlerOutcome Value)
    (failedThrows : Bool) (now : Int) : ExecutorState Value :=
  let accepted := TaskEvent.accepted call.taskId call.skillId call.requester
  match outcome with
  | .rejected error => s.failTask call [accepted] error failedThrows now
  | .resolved result listenerError =>
      let completed := TaskEvent.completed call.taskId call.skillId
      let s := { s with tasks := s.tasks.after (s.tasks.complete call.taskId result now) }
      match listenerError with
      | none => s.finish call [accepted, completed] (.result result)
      | some error => s.failTask call [accepted, completed] error failedThrows now

end ExecutorState

/-! ## Runs -/

inductive ExecutorAction (Value : Type)
  /-- With a drawn id. -/
  | createRequest (id requester skillId : String) (input : Value) (deadlineMs : Option Int)
      (now : Int)
  | accept (taskId executor : String) (now : Int)
  | reject (taskId reason : String) (now : Int)
  | complete (taskId : String) (result : Value) (now : Int)
  | fail (taskId error : String) (now : Int)
  | checkTimeouts (now : Int)
  | registerHandler (skillId : String)
  | handleTaskRequest (call : TaskCall) (throws : Bool) (now : Int)
  | measured (request : Nat) (metrics : PlacementMetrics) (throws : Bool) (now : Int)
  | settled (request : Nat) (outcome : HandlerOutcome Value) (failedThrows : Bool) (now : Int)

variable {Value : Type}

/-- A drawn id is new. -/
def executorStep (agentId : String) (limits : Option PlacementLimits) (s : ExecutorState Value) :
    ExecutorAction Value → Option (ExecutorState Value)
  | .createRequest id requester skillId input deadlineMs now =>
      if s.tasks.tasks.has id then none
      else
        some
          { s with
            tasks := s.tasks.after
              (s.tasks.createRequest id requester skillId input deadlineMs now) }
  | .accept taskId executor now =>
      some { s with tasks := s.tasks.after (s.tasks.accept taskId executor now) }
  | .reject taskId reason now =>
      some { s with tasks := s.tasks.after (s.tasks.reject taskId reason now) }
  | .complete taskId result now =>
      some { s with tasks := s.tasks.after (s.tasks.complete taskId result now) }
  | .fail taskId error now =>
      some { s with tasks := s.tasks.after (s.tasks.fail taskId error now) }
  | .checkTimeouts now => some { s with tasks := s.tasks.checkTimeouts now }
  | .registerHandler skillId => some { s with handlers := skillId :: s.handlers }
  | .handleTaskRequest call throws now =>
      match limits with
      | none => some (s.start agentId call throws now)
      | some _ => some { s with requests := s.requests.alloc (call, .measuring) }
  | .measured request metrics throws now =>
      match s.requests.get request, limits with
      | some (call, .measuring), some limits =>
          some
            ({ s with requests := s.requests.free request }.place agentId limits call metrics throws
              now)
      | _, _ => none
  | .settled request outcome failedThrows now =>
      match s.requests.get request with
      | some (call, .running) =>
          some
            ({ s with requests := s.requests.free request }.settle call outcome failedThrows now)
      | _ => none

/-- An executor without requests, with the handlers that it starts with. -/
def taskExecutor (Value : Type) (agentId : String) (limits : Option PlacementLimits)
    (handlers : List String) : Machine (ExecutorState Value) (ExecutorAction Value) where
  init := ⟨.new, handlers, .empty, []⟩
  step := executorStep agentId limits

/-! ## What the requester and the bus are told -/

variable {s s' : ExecutorState Value} {call : TaskCall} {agentId : String}
  {limits : Option PlacementLimits}

/-- The task of a call has ended, as a condition says. -/
def StandsAs (tasks : TaskManager Value) (call : TaskCall) (P : Task Value → Prop) : Prop :=
  ∃ task, tasks.getTask call.taskId = some task ∧ task.settled = true ∧ P task

/-- What a call has told is true of its task: a result only if the task is completed with it, a
failure only if the task has failed. -/
def Truthful (tasks : TaskManager Value) (handled : HandledTask Value) : Prop :=
  (∀ result, handled.answer = .result result →
      StandsAs tasks handled.call fun task =>
        task.state = .completed ∧ task.result = some result) ∧
    ∀ taskId skillId error, TaskEvent.failed taskId skillId error ∈ handled.events →
      StandsAs tasks handled.call fun task => task.state = .failed

def Agrees (s : ExecutorState Value) : Prop := ∀ handled ∈ s.handled, Truthful s.tasks handled

/-- When a handler ends, its task is still accepted, and no listener of `task:completed` throws. -/
def InTime (s : ExecutorState Value) : ExecutorAction Value → Prop
  | .settled request outcome _ _ =>
      ((s.requests.get request).all fun (call, _) =>
          (s.tasks.getTask call.taskId).any fun task => task.state = .accepted) = true ∧
        outcome.listenerThrows = false
  | _ => True

instance (s : ExecutorState Value) : ∀ action, Decidable (InTime s action)
  | .settled .. => inferInstanceAs (Decidable (_ ∧ _))
  | .createRequest .. | .accept .. | .reject .. | .complete .. | .fail .. | .checkTimeouts _
  | .registerHandler _ | .handleTaskRequest .. | .measured .. => inferInstanceAs (Decidable True)

theorem StandsAs.mono {tasks tasks' : TaskManager Value} {P : Task Value → Prop}
    (h : StandsAs tasks call P) (hkeeps : tasks.Keeps tasks') : StandsAs tasks' call P := by
  obtain ⟨task, hget, hsettled, hP⟩ := h
  obtain ⟨task', hget', hsame⟩ := hkeeps _ _ hget
  obtain rfl := hsame hsettled
  exact ⟨task', hget', hsettled, hP⟩

theorem Truthful.mono {tasks tasks' : TaskManager Value} {handled : HandledTask Value}
    (h : Truthful tasks handled) (hkeeps : tasks.Keeps tasks') : Truthful tasks' handled :=
  ⟨fun result hanswer => (h.1 result hanswer).mono hkeeps,
    fun taskId skillId error hmem => (h.2 taskId skillId error hmem).mono hkeeps⟩

/-- A call that has told neither a result nor a failure. -/
theorem truthful_of_silent {tasks : TaskManager Value} {events : List TaskEvent}
    {answer : TaskAnswer Value} (hanswer : ∀ result, answer ≠ .result result)
    (hevents : ∀ taskId skillId error, TaskEvent.failed taskId skillId error ∉ events) :
    Truthful tasks ⟨call, events, answer⟩ :=
  ⟨fun result h => absurd h (hanswer result),
    fun taskId skillId error h => absurd h (hevents taskId skillId error)⟩

/-- A step that keeps the tasks and adds at most one truthful call. -/
structure Adds (s s' : ExecutorState Value) : Prop where
  keeps : s.tasks.Keeps s'.tasks
  truthful : ∀ handled ∈ s'.handled, handled ∈ s.handled ∨ Truthful s'.tasks handled

theorem Adds.agrees (h : Adds s s') (hs : Agrees s) : Agrees s' := by
  intro handled hmem
  rcases h.truthful handled hmem with hold | hnew
  · exact (hs handled hold).mono h.keeps
  · exact hnew

theorem adds_of_handled_eq (hkeeps : s.tasks.Keeps s'.tasks) (h : s'.handled = s.handled) :
    Adds s s' :=
  ⟨hkeeps, fun _ hmem => .inl (h ▸ hmem)⟩

theorem adds_finish {events : List TaskEvent} {answer : TaskAnswer Value}
    (hkeeps : s.tasks.Keeps s'.tasks) (hhandled : s'.handled = s.handled)
    (h : Truthful s'.tasks ⟨call, events, answer⟩) : Adds s (s'.finish call events answer) := by
  refine ⟨hkeeps, fun handled hmem => ?_⟩
  rcases List.mem_cons.mp hmem with rfl | hmem
  · exact .inr h
  · exact .inl (hhandled ▸ hmem)

theorem adds_start {throws : Bool} {now : Int} : Adds s (s.start agentId call throws now) := by
  have hrefl : s.tasks.Keeps s.tasks := InsertionMap.evolves_refl _
  have hkeeps := s.tasks.keeps_accept call.taskId agentId now
  rw [ExecutorState.start]
  by_cases hhandler : call.skillId ∉ s.handlers
  · rw [if_pos hhandler]
    exact adds_finish hrefl rfl (truthful_of_silent (by simp) (by simp))
  · rw [if_neg hhandler]
    cases haccept : s.tasks.accept call.taskId agentId now with
    | none => exact adds_finish hrefl rfl (truthful_of_silent (by simp) (by simp))
    | some accepted =>
        rw [haccept] at hkeeps
        cases throws with
        | false => exact adds_of_handled_eq hkeeps rfl
        | true =>
            apply adds_finish
            · exact hkeeps
            · rfl
            · exact truthful_of_silent (by simp) (by simp)

theorem adds_place {limits : PlacementLimits} {metrics : PlacementMetrics} {throws : Bool} {now : Int}
    {requests : Arena (TaskCall × TaskStage)} :
    Adds s ({ s with requests }.place agentId limits call metrics throws now) := by
  unfold ExecutorState.place
  cases evaluatePlacementMetrics metrics limits with
  | none =>
      have hstart : Adds { s with requests } ({ s with requests }.start agentId call throws now) :=
        adds_start
      exact ⟨hstart.keeps, hstart.truthful⟩
  | some limit =>
      apply adds_finish
      · exact InsertionMap.evolves_refl _
      · rfl
      · exact truthful_of_silent (by simp) (by simp)

theorem keeps_failTask {events : List TaskEvent} {error : String} {throws : Bool} {now : Int} :
    s.tasks.Keeps (s.failTask call events error throws now).tasks :=
  s.tasks.keeps_fail call.taskId error now

theorem keeps_settle {outcome : HandlerOutcome Value} {failedThrows : Bool} {now : Int} :
    s.tasks.Keeps (s.settle call outcome failedThrows now).tasks := by
  cases outcome with
  | rejected error => exact keeps_failTask
  | resolved result listenerError =>
      have hkeeps := s.tasks.keeps_complete call.taskId result now
      cases listenerError with
      | none => exact hkeeps
      | some error =>
          apply hkeeps.trans
          exact TaskManager.keeps_fail _ call.taskId error now

/-- A handler that ends in time: what the call tells is what the manager has taken. -/
theorem adds_settle {outcome : HandlerOutcome Value} {failedThrows : Bool} {now : Int}
    {task : Task Value} (hget : s.tasks.getTask call.taskId = some task)
    (hstate : task.state = .accepted) (hquiet : outcome.listenerThrows = false) :
    Adds s (s.settle call outcome failedThrows now) := by
  cases outcome with
  | rejected error =>
      obtain ⟨task', hget', hfailed, -⟩ := TaskManager.get_fail hget hstate
      apply adds_finish
      · exact s.tasks.keeps_fail call.taskId error now
      · rfl
      · refine ⟨fun result hanswer => ?_, fun _ _ _ _ => ⟨task', hget', ?_, hfailed⟩⟩
        · dsimp only at hanswer
          split_ifs at hanswer
        · rw [Task.settled_eq, hfailed]
          rfl
  | resolved result listenerError =>
      cases listenerError with
      | some error => cases hquiet
      | none =>
          obtain ⟨task', hget', hcompleted, hresult⟩ := TaskManager.get_complete hget hstate
          apply adds_finish
          · exact s.tasks.keeps_complete call.taskId result now
          · rfl
          · refine ⟨fun other hanswer => ⟨task', hget', ?_, hcompleted, ?_⟩, by simp⟩
            · rw [Task.settled_eq, hcompleted]
              rfl
            · cases hanswer
              exact hresult

/-- What a step does: it keeps the tasks, and unless a handler ends it tells nothing false. -/
theorem step_cases {action : ExecutorAction Value} (hs : executorStep agentId limits s action = some s') :
    Adds s s' ∨
      ∃ request call outcome failedThrows now, action = .settled request outcome failedThrows now ∧
        s.requests.get request = some (call, .running) ∧
        s' = { s with requests := s.requests.free request }.settle call outcome failedThrows now := by
  cases action with
  | createRequest id requester skillId input deadlineMs now =>
      rw [executorStep] at hs
      split_ifs at hs with hhas
      obtain rfl := Option.some.inj hs
      -- a request gets an id that is not in use
      have hnew : s.tasks.tasks.get id = none := by simpa [InsertionMap.has] using hhas
      exact .inl (adds_of_handled_eq (TaskManager.keeps_createRequest hnew) rfl)
  | accept taskId executor now =>
      obtain rfl := Option.some.inj hs
      exact .inl (adds_of_handled_eq (s.tasks.keeps_accept taskId executor now) rfl)
  | reject taskId reason now =>
      obtain rfl := Option.some.inj hs
      exact .inl (adds_of_handled_eq (s.tasks.keeps_reject taskId reason now) rfl)
  | complete taskId result now =>
      obtain rfl := Option.some.inj hs
      exact .inl (adds_of_handled_eq (s.tasks.keeps_complete taskId result now) rfl)
  | fail taskId error now =>
      obtain rfl := Option.some.inj hs
      exact .inl (adds_of_handled_eq (s.tasks.keeps_fail taskId error now) rfl)
  | checkTimeouts now =>
      obtain rfl := Option.some.inj hs
      exact .inl (adds_of_handled_eq (s.tasks.keeps_checkTimeouts now) rfl)
  | registerHandler skillId =>
      obtain rfl := Option.some.inj hs
      exact .inl (adds_of_handled_eq (InsertionMap.evolves_refl _) rfl)
  | handleTaskRequest call throws now =>
      cases limits with
      | none =>
          obtain rfl := Option.some.inj hs
          -- without limits the handler is started at once, else its load is measured first
          exact .inl adds_start
      | some limits =>
          obtain rfl := Option.some.inj hs
          exact .inl (adds_of_handled_eq (InsertionMap.evolves_refl _) rfl)
  | measured request metrics throws now =>
      cases hget : s.requests.get request with
      | none => simp [executorStep, hget] at hs
      | some waiting =>
          obtain ⟨call, stage⟩ := waiting
          cases stage with
          | running => simp [executorStep, hget] at hs
          | measuring =>
              cases limits with
              | none => simp [executorStep, hget] at hs
              | some limits =>
                  simp only [executorStep, hget, Option.some.injEq] at hs
                  subst hs
                  exact .inl adds_place
  -- the end of a handler is the one step that may tell something false
  | settled request outcome failedThrows now =>
      cases hget : s.requests.get request with
      | none => simp [executorStep, hget] at hs
      | some waiting =>
          obtain ⟨call, stage⟩ := waiting
          cases stage with
          | measuring => simp [executorStep, hget] at hs
          | running =>
              simp only [executorStep, hget, Option.some.injEq] at hs
              exact .inr ⟨request, call, outcome, failedThrows, now, rfl, hget, hs.symm⟩

/-- No step loses a task or changes one that has ended. -/
theorem keeps_step {action : ExecutorAction Value}
    (hs : executorStep agentId limits s action = some s') : s.tasks.Keeps s'.tasks := by
  rcases step_cases hs with hadds | ⟨request, call, outcome, failedThrows, now, -, -, rfl⟩
  · exact hadds.keeps
  · exact keeps_settle (s := { s with requests := s.requests.free request })

theorem agrees_step {action : ExecutorAction Value} (h : Agrees s) (hintime : InTime s action)
    (hs : executorStep agentId limits s action = some s') : Agrees s' := by
  rcases step_cases hs with hadds | ⟨request, call, outcome, failedThrows, now, rfl, hget, rfl⟩
  · exact hadds.agrees h
  · obtain ⟨haccepted, hquiet⟩ := hintime
    rw [hget] at haccepted
    obtain ⟨task, htask, hstate⟩ := (Option.any_eq_true _ _).mp haccepted
    exact (adds_settle (s := { s with requests := s.requests.free request }) htask
      (of_decide_eq_true hstate) hquiet).agrees h

/-- What has ended is never changed; and where every handler ends while its task is still accepted,
and no listener of `task:completed` throws, the requester and the bus are told what the manager
knows. -/
theorem tasks_agree (Value : Type) (agentId : String) (limits : Option PlacementLimits)
    (handlers : List String) :
    (∀ s, (taskExecutor Value agentId limits handlers).ReachableUnder InTime s → Agrees s) ∧
      ∀ s s' action, (taskExecutor Value agentId limits handlers).Reachable s →
        (taskExecutor Value agentId limits handlers).step s action = some s' →
          ∀ taskId task, s.tasks.getTask taskId = some task →
            ∃ task', s'.tasks.getTask taskId = some task' ∧
              (task.state.isTerminal || task.result.isSome || task.error.isSome →
                task' = task) := by
  refine ⟨fun s hs => ?_, fun s s' action _ hstep taskId task hget => keeps_step hstep taskId task hget⟩
  exact hs.invariant (fun _ hmem => (nomatch hmem)) fun _ _ _ h hC hstep => agrees_step h hC hstep

/-- A task with a deadline of 50 milliseconds, accepted and run. -/
def slowTask : List (ExecutorAction String) :=
  [.createRequest "task-1" "spiffe://thinklocal/node/a" "report" "input" (some 50) 1000,
    .handleTaskRequest ⟨"task-1", "report", "spiffe://thinklocal/node/a"⟩ false 1001]

/-- The result of a handler that ends in time is the task's. -/
theorem tasks_agree_in_time :
    ∃ s, (taskExecutor String "node-b" none ["report"]).ReachableUnder InTime s ∧ Agrees s ∧
      (s.tasks.getTask "task-1").bind Task.result = some "done" := by
  let M := taskExecutor String "node-b" none ["report"]
  let actions := slowTask ++ [.settled 0 (.resolved "done" none) false 1040, .checkTimeouts 1060]
  have hrun : ((M.runFrom M.init actions).map fun s =>
      (s.tasks.getTask "task-1").bind Task.result) = some (some "done") := by
    decide +kernel
  have hmeets : M.Meets InTime M.init actions := by
    decide +kernel
  obtain ⟨s, hs, hresult⟩ := Option.map_eq_some_iff.mp hrun
  have hreach := Machine.ReachableUnder.init.runFrom hmeets hs
  exact ⟨s, hreach, (tasks_agree String "node-b" none ["report"]).1 s hreach, hresult⟩

/-- A handler that ends after the deadline: the requester has a result and the bus a completed task,
the manager a task that has timed out. -/
theorem result_of_timed_out_task :
    ∃ s, (taskExecutor String "node-b" none ["report"]).Reachable s ∧ ¬ Agrees s := by
  let M := taskExecutor String "node-b" none ["report"]
  let actions := slowTask ++ [.checkTimeouts 1060, .settled 0 (.resolved "done" none) false 1070]
  have hrun : ((M.runFrom M.init actions).map fun s =>
      ((s.tasks.getTask "task-1").map Task.state,
        s.handled.map fun h => (h.call.taskId, h.answer.result?))) =
          some (some .timeout, [("task-1", some "done")]) := by
    decide +kernel
  obtain ⟨s, hs, hfacts⟩ := Option.map_eq_some_iff.mp hrun
  obtain ⟨hstate, hhandled⟩ := Prod.mk.inj hfacts
  refine ⟨s, Machine.reachable_of_runFrom hs, fun hagrees => ?_⟩
  obtain ⟨handled, hlist, hcall⟩ := List.map_eq_singleton_iff.mp hhandled
  obtain ⟨htaskId, hresult⟩ := Prod.mk.inj hcall
  have hanswer : handled.answer = .result "done" := by
    cases hanswer : handled.answer <;> simp_all [TaskAnswer.result?]
  have hmem : handled ∈ s.handled := hlist ▸ List.mem_singleton_self handled
  obtain ⟨task, hget, -, hcompleted, -⟩ := (hagrees handled hmem).1 "done" hanswer
  rw [htaskId] at hget
  rw [hget, Option.map_some, hcompleted] at hstate
  cases hstate

end ThinkLocal.Tasks
