import ThinkLocal.Foundation.InsertionMap

/-!
# Tasks

`TaskManager` of `tasks.ts`.  A task is requested, accepted or rejected, and ends completed, failed or
timed out.  It has a result exactly if it is completed, and an error exactly if it has ended
otherwise.
-/

namespace ThinkLocal.Tasks

open Foundation

inductive TaskState
  | requested
  | accepted
  | rejected
  | completed
  | failed
  | timeout
deriving DecidableEq

/-- A state that is meant to be the last. -/
def TaskState.isTerminal : TaskState → Bool
  | requested | accepted => false
  | rejected | completed | failed | timeout => true

/-- Times are those of the texts of the dates. -/
structure Task (Value : Type) where
  id : String
  correlationId : String
  requester : String
  executor : Option String
  state : TaskState
  skillId : String
  input : Value
  result : Option Value
  error : Option String
  createdAt : Int
  deadline : Option Int
  updatedAt : Int
  result_iff : result.isSome = decide (state = .completed)
  error_iff : error.isSome = decide (state = .rejected ∨ state = .failed ∨ state = .timeout)

structure TaskManager (Value : Type) where
  tasks : InsertionMap String (Task Value)
  correlationIndex : InsertionMap String String

variable {Value : Type}

/-- Has the task ended, or anything of its outcome? -/
def Task.settled (task : Task Value) : Bool :=
  task.state.isTerminal || task.result.isSome || task.error.isSome

theorem Task.settled_eq (task : Task Value) : task.settled = task.state.isTerminal := by
  unfold settled
  rw [task.result_iff, task.error_iff]
  cases task.state <;> rfl

namespace TaskManager

def new : TaskManager Value := ⟨.empty, .empty⟩

/-- The greatest time of a date. -/
def maxTime : Nat := 8640000000000000

/-- A deadline of no milliseconds is none. -/
def deadlineOf (deadlineMs : Option Int) (now : Int) : Option Int :=
  (deadlineMs.filter fun ms => ms ≠ 0).map fun ms => now + ms

/-- The drawn id is the correlation id as well; `none` if the deadline is no date. -/
def createRequest (m : TaskManager Value) (id requester skillId : String) (input : Value)
    (deadlineMs : Option Int) (now : Int) : Option (TaskManager Value × Task Value) :=
  if (deadlineOf deadlineMs now).all fun t => t.natAbs ≤ maxTime then
    let task : Task Value :=
      { id
        correlationId := id
        requester
        executor := none
        state := .requested
        skillId
        input
        result := none
        error := none
        createdAt := now
        deadline := deadlineOf deadlineMs now
        updatedAt := now
        result_iff := rfl
        error_iff := rfl }
    some ({ tasks := m.tasks.set id task, correlationIndex := m.correlationIndex.set id id }, task)
  else none

/-- Changes a task that is in the expected state. -/
def move (m : TaskManager Value) (taskId : String) (expected : TaskState)
    (change : (task : Task Value) → task.state = expected → Task Value) :
    Option (TaskManager Value × Task Value) :=
  match m.tasks.get taskId with
  | none => none
  | some task =>
      if h : task.state = expected then
        some ({ m with tasks := m.tasks.set taskId (change task h) }, change task h)
      else none

def accept (m : TaskManager Value) (taskId executor : String) (now : Int) :
    Option (TaskManager Value × Task Value) :=
  m.move taskId .requested fun task h =>
    { task with
      state := .accepted
      executor := some executor
      updatedAt := now
      result_iff := by rw [task.result_iff, h]; rfl
      error_iff := by rw [task.error_iff, h]; rfl }

def reject (m : TaskManager Value) (taskId reason : String) (now : Int) :
    Option (TaskManager Value × Task Value) :=
  m.move taskId .requested fun task h =>
    { task with
      state := .rejected
      error := some reason
      updatedAt := now
      result_iff := by rw [task.result_iff, h]; rfl
      error_iff := rfl }

def complete (m : TaskManager Value) (taskId : String) (result : Value) (now : Int) :
    Option (TaskManager Value × Task Value) :=
  m.move taskId .accepted fun task h =>
    { task with
      state := .completed
      result := some result
      updatedAt := now
      result_iff := rfl
      error_iff := by rw [task.error_iff, h]; rfl }

def fail (m : TaskManager Value) (taskId error : String) (now : Int) :
    Option (TaskManager Value × Task Value) :=
  m.move taskId .accepted fun task h =>
    { task with
      state := .failed
      error := some error
      updatedAt := now
      result_iff := by rw [task.result_iff, h]; rfl
      error_iff := rfl }

/-- Is the task open and its deadline over? -/
def isOverdue (task : Task Value) (now : Int) : Bool :=
  task.state.isTerminal = false ∧ task.deadline.any fun deadline => deadline < now

def timeOut (task : Task Value) (now : Int) : Task Value :=
  if h : isOverdue task now then
    { task with
      state := .timeout
      error := some "Deadline exceeded"
      updatedAt := now
      result_iff := by
        have hopen : task.state.isTerminal = false := (of_decide_eq_true h).1
        rw [task.result_iff]
        cases hstate : task.state <;> simp_all [TaskState.isTerminal]
      error_iff := rfl }
  else task

def checkTimeouts (m : TaskManager Value) (now : Int) : TaskManager Value :=
  { m with tasks := m.tasks.mapValues fun task => timeOut task now }

def getTask (m : TaskManager Value) (taskId : String) : Option (Task Value) := m.tasks.get taskId

def getTaskByCorrelation (m : TaskManager Value) (correlationId : String) : Option (Task Value) :=
  ((m.correlationIndex.get correlationId).filter fun id => id ≠ "").bind m.tasks.get

/-- The manager after a call that may do nothing. -/
def after (m : TaskManager Value) (answer : Option (TaskManager Value × Task Value)) :
    TaskManager Value :=
  (answer.map Prod.fst).getD m

end TaskManager

/-! ## What has ended stays as it is -/

def StaysSettled (task task' : Task Value) : Prop := task.settled = true → task' = task

instance : Std.Refl (@StaysSettled Value) := ⟨fun _ _ => rfl⟩

instance : IsTrans (Task Value) StaysSettled where
  trans _ _ _ h h' hsettled := by
    obtain rfl := h hsettled
    exact h' hsettled

namespace TaskManager

variable {m m' : TaskManager Value} {taskId : String} {task task' : Task Value}
  {expected : TaskState} {change : (task : Task Value) → task.state = expected → Task Value}

/-- No task is lost, and what has ended stays as it is. -/
abbrev Keeps (m m' : TaskManager Value) : Prop := m.tasks.Evolves StaysSettled m'.tasks

/-- A call moves a task that is in the expected state. -/
theorem move_of_get (hget : m.tasks.get taskId = some task) (hstate : task.state = expected) :
    m.move taskId expected change =
      some ({ m with tasks := m.tasks.set taskId (change task hstate) }, change task hstate) := by
  rw [move, hget]
  exact dif_pos hstate

/-- It does nothing to another one. -/
theorem move_eq_none (h : ∀ task, m.tasks.get taskId = some task → task.state ≠ expected) :
    m.move taskId expected change = none := by
  rw [move]
  cases hget : m.tasks.get taskId with
  | none => rfl
  | some task => exact dif_neg (h task hget)

theorem keeps_move (hopen : expected.isTerminal = false) :
    m.Keeps (m.after (m.move taskId expected change)) := by
  by_cases h : ∃ task, m.tasks.get taskId = some task ∧ task.state = expected
  · obtain ⟨task, hget, hstate⟩ := h
    rw [move_of_get hget hstate]
    refine InsertionMap.evolves_set fun old hold hsettled => ?_
    obtain rfl := Option.some.inj (hget.symm.trans hold)
    rw [Task.settled_eq, hstate, hopen] at hsettled
    cases hsettled
  · rw [move_eq_none fun task hget hstate => h ⟨task, hget, hstate⟩]
    exact InsertionMap.evolves_refl _

theorem keeps_accept (m : TaskManager Value) (taskId executor : String) (now : Int) :
    m.Keeps (m.after (m.accept taskId executor now)) :=
  keeps_move rfl

theorem keeps_reject (m : TaskManager Value) (taskId reason : String) (now : Int) :
    m.Keeps (m.after (m.reject taskId reason now)) :=
  keeps_move rfl

theorem keeps_complete (m : TaskManager Value) (taskId : String) (result : Value) (now : Int) :
    m.Keeps (m.after (m.complete taskId result now)) :=
  keeps_move rfl

theorem keeps_fail (m : TaskManager Value) (taskId error : String) (now : Int) :
    m.Keeps (m.after (m.fail taskId error now)) :=
  keeps_move rfl

theorem keeps_checkTimeouts (m : TaskManager Value) (now : Int) :
    m.Keeps (m.checkTimeouts now) := by
  refine InsertionMap.evolves_mapValues fun task hsettled => ?_
  rw [Task.settled_eq] at hsettled
  have hnot : ¬ isOverdue task now = true := by simp [isOverdue, hsettled]
  exact dif_neg hnot

theorem keeps_createRequest {requester skillId : String} {input : Value} {deadlineMs : Option Int}
    {now : Int} (hnew : m.tasks.get taskId = none) :
    m.Keeps (m.after (m.createRequest taskId requester skillId input deadlineMs now)) := by
  unfold createRequest
  split_ifs
  · refine InsertionMap.evolves_set fun old hold => ?_
    rw [hnew] at hold
    cases hold
  · exact InsertionMap.evolves_refl _

/-- A task that was accepted is completed with the result. -/
theorem get_complete {result : Value} {now : Int} (hget : m.tasks.get taskId = some task)
    (hstate : task.state = .accepted) :
    ∃ task', (m.after (m.complete taskId result now)).tasks.get taskId = some task' ∧
      task'.state = .completed ∧ task'.result = some result := by
  rw [complete, move_of_get hget hstate]
  exact ⟨_, by rw [after, Option.map_some, Option.getD_some, InsertionMap.get_set, if_pos rfl], rfl, rfl⟩

theorem get_fail {error : String} {now : Int} (hget : m.tasks.get taskId = some task)
    (hstate : task.state = .accepted) :
    ∃ task', (m.after (m.fail taskId error now)).tasks.get taskId = some task' ∧
      task'.state = .failed ∧ task'.error = some error := by
  rw [fail, move_of_get hget hstate]
  exact ⟨_, by rw [after, Option.map_some, Option.getD_some, InsertionMap.get_set, if_pos rfl], rfl, rfl⟩

end TaskManager

end ThinkLocal.Tasks
