import ThinkLocal.Foundation.InsertionMap
import ThinkLocal.Foundation.Machine
import ThinkLocal.Foundation.Ranking
import ThinkLocal.Js.Number

/-!
# The task queue

`TaskQueue` of `task-queue.ts`.  The calls in flight are counted through the map `running`, whose
keys the callers choose, and a waiting task is started only by `enqueue` and by the continuation
of a call that has settled.  The flag `processing` is set and cleared without a pause in between,
so no step sees it set.
-/

namespace ThinkLocal.Tasks

open Foundation
open Js (Number)

/-! ## Tasks -/

inductive TaskPriority
  | critical
  | high
  | normal
  | low
  | background
  deriving DecidableEq, Repr

/-- `PRIORITY_VALUES`. -/
def TaskPriority.value : TaskPriority → ℕ
  | critical => 100
  | high => 75
  | normal => 50
  | low => 25
  | background => 0

inductive QueuedTaskStatus
  | queued
  | running
  | completed
  | failed
  deriving DecidableEq, Repr

/-- What a caller gives to `enqueue`. -/
structure TaskRequest (Value : Type) where
  id : String
  skillId : String
  input : Value
  priority : TaskPriority
  requesterId : String

structure QueuedTask (Value : Type) extends TaskRequest Value where
  enqueuedAt : ℤ
  startedAt : Option ℤ := none
  completedAt : Option ℤ := none
  status : QueuedTaskStatus := .queued
  result : Option Value := none
  error : Option String := none

/-- How a call of the executor settles.  What cannot be read as a result counts as rejected, and a
rejection may have no text `String(err)`. -/
inductive TaskSettlement (Value : Type)
  | resolved (result : Option Value) (error : Option String)
  | rejected (text : Option String)

/-- The task after its call. -/
def QueuedTask.settle {Value : Type} (task : QueuedTask Value) (now : ℤ) :
    TaskSettlement Value → QueuedTask Value
  | .resolved result error =>
      { task with
        status := if error.getD "" = "" then .completed else .failed
        result := result
        error := error
        completedAt := some now }
  | .rejected text =>
      { task with status := .failed, error := text.or task.error, completedAt := some now }

/-- A task object; the number of earlier accepted tasks tells it from others of the same id. -/
structure Ticket (Value : Type) where
  arrival : ℕ
  task : QueuedTask Value

namespace Ticket

variable {Value : Type}

def rank (ticket : Ticket Value) : ℕ := ticket.task.priority.value

/-- Has the one ticket to be started before the other? -/
abbrev Before (x y : Ticket Value) : Prop := PriorityQueue.Before rank arrival x y

def start (ticket : Ticket Value) (now : ℤ) : Ticket Value :=
  { ticket with task := { ticket.task with status := .running, startedAt := some now } }

end Ticket

/-! ## The queue -/

structure TaskQueueConfig where
  maxConcurrent : Option Number := none
  maxQueueSize : Option Number := none

namespace TaskQueueConfig

def concurrent (config : TaskQueueConfig) : Number := config.maxConcurrent.getD (.ofInt 5)

def queueSize (config : TaskQueueConfig) : Number := config.maxQueueSize.getD (.ofInt 100)

end TaskQueueConfig

/-- The fields of the class, the calls in flight, and all tasks that were accepted, started and
cancelled so far. -/
structure TaskQueue (Value : Type) where
  queue : List (Ticket Value) := []
  running : InsertionMap String (Ticket Value) := .empty
  completed : List (QueuedTask Value) := []
  executor : Bool := false
  calls : List (Ticket Value) := []
  accepted : ℕ := 0
  started : List (Ticket Value) := []
  cancelled : List (Ticket Value) := []

namespace TaskQueue

variable {Value : Type} (config : TaskQueueConfig) (s : TaskQueue Value)

/-- A call on its way. -/
def startCall (ticket : Ticket Value) (rest : List (Ticket Value)) : TaskQueue Value :=
  { s with
    queue := rest
    running := s.running.set ticket.task.id ticket
    calls := s.calls ++ [ticket]
    started := s.started ++ [ticket] }

/-- May a call be started? -/
def ready : Bool := s.executor && !config.concurrent.le (.ofInt s.running.size)

def processNext (now : ℤ) : TaskQueue Value :=
  if s.ready config then
    match s.queue with
    | [] => s
    | ticket :: rest => s.startCall (ticket.start now) rest
  else s

/-- The new task in its place. -/
def insert (request : TaskRequest Value) (now : ℤ) : TaskQueue Value :=
  { s with
    queue := PriorityQueue.insert Ticket.rank ⟨s.accepted, { request with enqueuedAt := now }⟩ s.queue
    accepted := s.accepted + 1 }

def enqueue (request : TaskRequest Value) (now later : ℤ) : Option String × TaskQueue Value :=
  if config.queueSize.le (.ofInt s.queue.length) then (none, s)
  else (some request.id, (s.insert request now).processNext config later)

/-- The continuation of a settled call up to the next `processNext`. -/
def finish (i : ℕ) (ticket : Ticket Value) (settlement : TaskSettlement Value) (now : ℤ) :
    TaskQueue Value :=
  let completed := s.completed ++ [ticket.task.settle now settlement]
  { s with
    running := s.running.delete ticket.task.id
    calls := s.calls.eraseIdx i
    completed := completed.drop (completed.length - 200) }

def cancel (id : String) : Bool × TaskQueue Value :=
  match s.queue.findIdx? fun ticket => ticket.task.id = id with
  | none => (false, s)
  | some i => (true,
      { s with queue := s.queue.eraseIdx i, cancelled := s.cancelled ++ s.queue[i]?.toList })

end TaskQueue

inductive TaskQueueAction (Value : Type)
  | setExecutor
  | enqueue (request : TaskRequest Value) (now later : ℤ)
  | cancel (id : String)
  /-- The call at a place among those in flight settles. -/
  | settle (i : ℕ) (settlement : TaskSettlement Value) (now later : ℤ)

def taskQueueMachine (Value : Type) (config : TaskQueueConfig) :
    Machine (TaskQueue Value) (TaskQueueAction Value) where
  init := {}
  step s
    | .setExecutor => some { s with executor := true }
    | .enqueue request now later => some (s.enqueue config request now later).2
    | .cancel id => some (s.cancel id).2
    | .settle i settlement now later => s.calls[i]?.map fun ticket =>
        (s.finish i ticket settlement now).processNext config later

/-! ## The law of the queue -/

section Law

variable {Value : Type} (config : TaskQueueConfig)

/-- What the queue owes its callers in a state. -/
structure TaskQueueLaw (s : TaskQueue Value) : Prop where
  bounded : config.concurrent.lt (.ofInt s.calls.length) = false
  /-- No task waits beside a free place. -/
  busy : s.executor = true → s.queue = [] ∨ config.concurrent = .ofInt s.calls.length
  /-- A step starts at most one task, which has to be started before all that still wait. -/
  ordered : ∀ action s', (taskQueueMachine Value config).step s action = some s' →
    s'.started = s.started ∨
      ∃ ticket, s'.started = s.started ++ [ticket] ∧ ∀ waiting ∈ s'.queue, ticket.Before waiting
  /-- Every accepted task waits, was started or was cancelled, and only one of these once. -/
  once : ((s.queue ++ s.started ++ s.cancelled).map Ticket.arrival).Perm (List.range s.accepted)
  /-- The calls in flight are of started tasks. -/
  calls : s.calls.Sublist s.started

/-- The task that `processNext` starts, if any, has not the id of a call in flight. -/
def FreshStart (s : TaskQueue Value) : Prop :=
  s.ready config = true → ∀ ticket, s.queue.head? = some ticket →
    ticket.task.id ∉ s.calls.map fun call => call.task.id

/-- The executor is set before tasks wait beside a free place, and no task is started while a call
of its id is in flight. -/
def DistinctCalls (s : TaskQueue Value) : TaskQueueAction Value → Prop
  | .setExecutor =>
      s.executor = true ∨ s.queue = [] ∨ config.concurrent = .ofInt s.calls.length
  | .enqueue request now _ => config.queueSize.le (.ofInt s.queue.length) = false →
      FreshStart config (s.insert request now)
  | .settle i settlement now _ => ∀ ticket, s.calls[i]? = some ticket →
      FreshStart config (s.finish i ticket settlement now)
  | .cancel _ => True

instance (s : TaskQueue Value) : Decidable (FreshStart config s) :=
  inferInstanceAs (Decidable (s.ready config = true → ∀ ticket ∈ s.queue.head?,
    ticket.task.id ∉ s.calls.map fun call => call.task.id))

instance (s : TaskQueue Value) (action : TaskQueueAction Value) :
    Decidable (DistinctCalls config s action) :=
  match action with
  | .setExecutor => inferInstanceAs (Decidable (s.executor = true ∨ s.queue = [] ∨
      config.concurrent = .ofInt s.calls.length))
  | .enqueue request now _ => inferInstanceAs (Decidable
      (config.queueSize.le (.ofInt s.queue.length) = false →
        FreshStart config (s.insert request now)))
  | .settle i settlement now _ => inferInstanceAs (Decidable (∀ ticket ∈ s.calls[i]?,
      FreshStart config (s.finish i ticket settlement now)))
  | .cancel _ => .isTrue trivial

/-- A limit that can be reached: a whole number or `Infinity`. -/
def IsCount (limit : Number) : Prop := limit = .infinity ∨ ∃ n : ℕ, limit = .ofInt n

end Law

section Proofs

variable {Value : Type} {config : TaskQueueConfig} {s s' : TaskQueue Value}

/-! ## Every task in one place -/

theorem processNext_cases (s : TaskQueue Value) (now : ℤ) :
    (s.processNext config now = s ∧ (s.ready config = false ∨ s.queue = [])) ∨
    ∃ ticket rest, s.queue = ticket :: rest ∧ s.ready config = true ∧
      s.processNext config now = s.startCall (ticket.start now) rest := by
  unfold TaskQueue.processNext
  by_cases hready : s.ready config = true
  · rw [if_pos hready]
    cases hqueue : s.queue with
    | nil => exact .inl ⟨rfl, .inr rfl⟩
    | cons ticket rest => exact .inr ⟨ticket, rest, rfl, hready, rfl⟩
  · rw [if_neg hready]
    exact .inl ⟨rfl, .inl (Bool.eq_false_of_not_eq_true hready)⟩

/-- The queue is in order, and every accepted task is in one place. -/
structure Accounted (s : TaskQueue Value) : Prop where
  sorted : s.queue.Pairwise Ticket.Before
  once : ((s.queue ++ s.started ++ s.cancelled).map Ticket.arrival).Perm (List.range s.accepted)
  calls : s.calls.Sublist s.started

theorem Accounted.arrival_lt (h : Accounted s) {ticket : Ticket Value} (hqueue : ticket ∈ s.queue) :
    ticket.arrival < s.accepted := by
  have hmem : ticket.arrival ∈ (s.queue ++ s.started ++ s.cancelled).map Ticket.arrival :=
    List.mem_map_of_mem (List.mem_append_left _ (List.mem_append_left _ hqueue))
  exact List.mem_range.mp (h.once.mem_iff.mp hmem)

theorem Accounted.insert (h : Accounted s) (request : TaskRequest Value) (now : ℤ) :
    Accounted (s.insert request now) := by
  refine ⟨PriorityQueue.insert_pairwise h.sorted fun ticket => h.arrival_lt, ?_, h.calls⟩
  have hinsert : (s.insert request now).queue.Perm (⟨s.accepted, { request with enqueuedAt := now }⟩ ::
      s.queue) := PriorityQueue.insert_perm
  have hplaces := ((hinsert.append_right s.started).append_right s.cancelled).map Ticket.arrival
  have hrange : (s.accepted :: List.range s.accepted).Perm (List.range (s.accepted + 1)) := by
    rw [List.range_succ]
    exact (List.perm_append_singleton _ _).symm
  exact (hplaces.trans (h.once.cons s.accepted)).trans hrange

theorem Accounted.startCall {ticket : Ticket Value} {rest : List (Ticket Value)} (h : Accounted s)
    (hqueue : s.queue = ticket :: rest) (now : ℤ) :
    Accounted (s.startCall (ticket.start now) rest) := by
  refine ⟨(List.pairwise_cons.mp (hqueue ▸ h.sorted)).2, ?_, h.calls.append (.refl _)⟩
  have hplaces : ((rest ++ (s.started ++ [ticket.start now]) ++ s.cancelled).map
      Ticket.arrival).Perm ((s.queue ++ s.started ++ s.cancelled).map Ticket.arrival) := by
    rw [hqueue, ← List.append_assoc]
    simp only [List.map_append, List.map_cons, List.cons_append]
    exact (List.perm_append_singleton _ _).append_right _
  exact hplaces.trans h.once

theorem Accounted.processNext (h : Accounted s) (now : ℤ) :
    Accounted (s.processNext config now) := by
  rcases processNext_cases s now with ⟨heq, -⟩ | ⟨ticket, rest, hqueue, -, heq⟩
  · rw [heq]
    exact h
  · rw [heq]
    exact h.startCall hqueue now

theorem Accounted.finish (h : Accounted s) (i : ℕ) (ticket : Ticket Value)
    (settlement : TaskSettlement Value) (now : ℤ) :
    Accounted (s.finish i ticket settlement now) :=
  ⟨h.sorted, h.once, (List.eraseIdx_sublist _ i).trans h.calls⟩

theorem Accounted.cancel (h : Accounted s) (id : String) : Accounted (s.cancel id).2 := by
  unfold TaskQueue.cancel
  cases hfind : s.queue.findIdx? fun ticket => ticket.task.id = id with
  | none => exact h
  | some i =>
      obtain ⟨hi, -⟩ := List.findIdx?_eq_some_iff_getElem.mp hfind
      refine ⟨h.sorted.eraseIdx i, ?_, h.calls⟩
      have hplaces : (s.queue.eraseIdx i ++ s.started ++ (s.cancelled ++ [s.queue[i]])).Perm
          (s.queue ++ s.started ++ s.cancelled) := by
        rw [← List.append_assoc]
        refine (List.perm_append_singleton _ _).trans ?_
        exact ((List.getElem_cons_eraseIdx_perm hi).append_right _).append_right _
      dsimp only
      rw [List.getElem?_eq_getElem hi]
      exact (hplaces.map Ticket.arrival).trans h.once

theorem accounted_of_reachable (h : (taskQueueMachine Value config).Reachable s) :
    Accounted s := by
  refine Machine.Reachable.invariant ⟨.nil, .refl _, .refl _⟩ ?_ h
  intro s action s' hs hstep
  cases action with
  | setExecutor =>
      obtain rfl := Option.some.inj hstep
      exact ⟨hs.sorted, hs.once, hs.calls⟩
  | enqueue request now later =>
      obtain rfl := Option.some.inj hstep
      unfold TaskQueue.enqueue
      split
      · exact hs
      · exact (hs.insert request now).processNext later
  | cancel id =>
      obtain rfl := Option.some.inj hstep
      exact hs.cancel id
  | settle i settlement now later =>
      obtain ⟨ticket, -, rfl⟩ := Option.map_eq_some_iff.mp hstep
      exact (hs.finish i ticket settlement now).processNext later

/-- `processNext` starts the head of the queue, if any. -/
theorem Accounted.processNext_started (h : Accounted s) (now : ℤ) :
    (s.processNext config now).started = s.started ∨
      ∃ ticket, (s.processNext config now).started = s.started ++ [ticket] ∧
        ∀ waiting ∈ (s.processNext config now).queue, ticket.Before waiting := by
  rcases processNext_cases s now with ⟨heq, -⟩ | ⟨ticket, rest, hqueue, -, heq⟩
  · rw [heq]
    exact .inl rfl
  · rw [heq]
    have hhead := (List.pairwise_cons.mp (hqueue ▸ h.sorted)).1
    exact .inr ⟨ticket.start now, rfl, fun waiting hwaiting => hhead waiting hwaiting⟩

theorem Accounted.ordered {action : TaskQueueAction Value} (h : Accounted s)
    (hstep : (taskQueueMachine Value config).step s action = some s') :
    s'.started = s.started ∨
      ∃ ticket, s'.started = s.started ++ [ticket] ∧
        ∀ waiting ∈ s'.queue, ticket.Before waiting := by
  cases action with
  | setExecutor =>
      obtain rfl := Option.some.inj hstep
      exact .inl rfl
  | enqueue request now later =>
      obtain rfl := Option.some.inj hstep
      unfold TaskQueue.enqueue
      split
      · exact .inl rfl
      · exact (h.insert request now).processNext_started later
  | cancel id =>
      obtain rfl := Option.some.inj hstep
      unfold TaskQueue.cancel
      split <;> exact .inl rfl
  | settle i settlement now later =>
      obtain ⟨ticket, -, rfl⟩ := Option.map_eq_some_iff.mp hstep
      exact (h.finish i ticket settlement now).processNext_started later

/-! ## The count of the calls in flight -/

section Limits

variable {limit : Number} {n : ℕ}

/-- A limit that is not reached is not passed by one more. -/
theorem IsCount.lt_succ (hlimit : IsCount limit) (h : limit.le (.ofInt n) = false) :
    limit.lt (.ofInt (n + 1 : ℕ)) = false := by
  rcases hlimit with rfl | ⟨m, rfl⟩
  · rfl
  · have hlt : ¬ m ≤ n := fun hle => by
      have hself : (Number.ofInt m).le (.ofInt m) = true := by simp [Number.le, Number.ofInt]
      rw [Number.le_ofInt_of_le (by exact_mod_cast hle) hself] at h
      cases h
    have hle : n + 1 ≤ m := by omega
    simpa [Number.lt, Number.ofInt] using (by exact_mod_cast hle : ((n : ℚ) + 1 ≤ m))

theorem IsCount.not_lt_zero (hlimit : IsCount limit) : limit.lt (.ofInt (0 : ℕ)) = false := by
  rcases hlimit with rfl | ⟨m, rfl⟩
  · rfl
  · simp [Number.lt, Number.ofInt]

/-- A limit that is not passed is not passed by less. -/
theorem not_lt_of_le {m : ℕ} (hmn : m ≤ n) (h : limit.lt (.ofInt n) = false) :
    limit.lt (.ofInt m) = false := by
  cases limit with
  | nan | infinity => rfl
  | negInfinity => cases h
  | finite value =>
      have hmn' : (m : ℚ) ≤ n := by exact_mod_cast hmn
      have hvalue : (n : ℚ) ≤ value := not_lt.mp (of_decide_eq_false h)
      exact decide_eq_false (not_lt.mpr (hmn'.trans hvalue))

/-- A limit that is reached and not passed. -/
theorem eq_of_le_of_not_lt {x : Number} (hle : limit.le x = true) (hlt : limit.lt x = false) :
    limit = x := by
  rw [Number.le, hlt, Bool.false_or, Bool.and_eq_true] at hle
  exact of_decide_eq_true hle.1

end Limits

/-- The map counts the calls in flight, and no task waits beside a free place. -/
structure Scheduled (config : TaskQueueConfig) (s : TaskQueue Value) : Prop where
  keys : s.running.keys = s.calls.map fun call => call.task.id
  bounded : config.concurrent.lt (.ofInt s.calls.length) = false
  busy : s.executor = true → s.queue = [] ∨ config.concurrent = .ofInt s.calls.length

theorem size_running (hkeys : s.running.keys = s.calls.map fun call => call.task.id) :
    s.running.size = s.calls.length := by
  have hlength := congrArg List.length hkeys
  rwa [InsertionMap.keys, List.length_map, List.length_map] at hlength

/-- Where at most one place is free or one task waits, `processNext` leaves nothing to start. -/
theorem scheduled_processNext (hcount : IsCount config.concurrent)
    (hkeys : s.running.keys = s.calls.map fun call => call.task.id)
    (hbounded : config.concurrent.lt (.ofInt s.calls.length) = false)
    (hgap : s.executor = true → s.queue.length ≤ 1 ∨
      config.concurrent.le (.ofInt (s.calls.length + 1 : ℕ)) = true)
    (hfresh : FreshStart config s) (now : ℤ) : Scheduled config (s.processNext config now) := by
  rcases processNext_cases s now with ⟨heq, hidle⟩ | ⟨ticket, rest, hqueue, hready, heq⟩
  · rw [heq]
    refine ⟨hkeys, hbounded, fun hexecutor => ?_⟩
    rcases hidle with hfull | hempty
    · rw [TaskQueue.ready, hexecutor, Bool.true_and, Bool.not_eq_false', size_running hkeys] at hfull
      exact .inr (eq_of_le_of_not_lt hfull hbounded)
    · exact .inl hempty
  · rw [heq]
    have hid := hfresh hready ticket (by rw [hqueue, List.head?_cons])
    obtain ⟨hexecutor, hfree⟩ := (Bool.and_eq_true _ _).mp hready
    rw [Bool.not_eq_true', size_running hkeys] at hfree
    have hlength : (s.startCall (ticket.start now) rest).calls.length = s.calls.length + 1 :=
      List.length_append
    have hroom := hcount.lt_succ hfree
    refine ⟨?_, ?_, fun _ => ?_⟩
    · have hnew : ticket.task.id ∉ s.running.keys := hkeys ▸ hid
      rw [TaskQueue.startCall, List.map_append, ← hkeys]
      exact (InsertionMap.keys_setEntries _ _ _).trans (if_neg hnew)
    · rw [hlength]
      exact hroom
    · rw [hlength]
      rcases hgap hexecutor with hone | hlast
      · rw [hqueue, List.length_cons] at hone
        exact .inl (List.eq_nil_of_length_eq_zero (Nat.le_zero.mp (Nat.le_of_succ_le_succ hone)))
      · exact .inr (eq_of_le_of_not_lt hlast hroom)

theorem Scheduled.enqueue (h : Scheduled config s) (hcount : IsCount config.concurrent)
    (request : TaskRequest Value) (now later : ℤ)
    (hfresh : FreshStart config (s.insert request now)) :
    Scheduled config ((s.insert request now).processNext config later) := by
  have hkeys : (s.insert request now).running.keys =
      (s.insert request now).calls.map fun call => call.task.id := h.keys
  refine scheduled_processNext hcount hkeys h.bounded (fun hexecutor => ?_) hfresh later
  rcases h.busy hexecutor with hempty | hfull
  · rw [TaskQueue.insert, hempty]
    exact .inl le_rfl
  · refine .inr (Number.le_ofInt_of_le (a := s.calls.length) (by exact_mod_cast Nat.le_succ _) ?_)
    rw [hfull]
    simp [Number.le, Number.ofInt]

/-- In a list without repetitions, the entry at a place is erased by its value. -/
theorem eraseIdx_eq_filter {l : List String} {i : ℕ} {x : String} (hl : l.Nodup)
    (hx : l[i]? = some x) : l.eraseIdx i = l.filter fun y => y ≠ x := by
  obtain ⟨hi, rfl⟩ := List.getElem?_eq_some_iff.mp hx
  have herase : l.erase l[i] = l.eraseIdx i :=
    List.erase_eq_eraseIdx_of_idxOf (hl.idxOf_getElem i hi)
  rw [← herase, hl.erase_eq_filter]
  exact List.filter_congr fun y _ => by rw [Bool.eq_iff_iff]; simp

theorem Scheduled.settle (h : Scheduled config s) (hcount : IsCount config.concurrent) {i : ℕ}
    {ticket : Ticket Value} (hticket : s.calls[i]? = some ticket)
    (settlement : TaskSettlement Value) (now later : ℤ)
    (hfresh : FreshStart config (s.finish i ticket settlement now)) :
    Scheduled config ((s.finish i ticket settlement now).processNext config later) := by
  have hlength : (s.calls.eraseIdx i).length + 1 = s.calls.length := by
    obtain ⟨hi, -⟩ := List.getElem?_eq_some_iff.mp hticket
    rw [List.length_eraseIdx_of_lt hi]
    omega
  refine scheduled_processNext hcount ?_ ?_ (fun hexecutor => ?_) hfresh later
  · -- the map loses the id of the call that settled, which no other call has
    have hid : s.running.keys[i]? = some ticket.task.id := by
      rw [h.keys, List.getElem?_map, hticket]
      rfl
    have hmap := eraseIdx_eq_filter s.running.nodup hid
    rw [TaskQueue.finish, ← List.eraseIdx_map, ← h.keys]
    exact (List.filter_map.symm).trans hmap.symm
  · exact not_lt_of_le (Nat.le_of_succ_le hlength.le) h.bounded
  · rcases h.busy hexecutor with hempty | hfull
    · refine .inl ?_
      rw [TaskQueue.finish, hempty]
      exact Nat.zero_le 1
    · refine .inr ?_
      rw [TaskQueue.finish, hlength, hfull]
      simp [Number.le, Number.ofInt]

theorem Scheduled.step (hcount : IsCount config.concurrent) {action : TaskQueueAction Value}
    (h : Scheduled config s) (hdistinct : DistinctCalls config s action)
    (hstep : (taskQueueMachine Value config).step s action = some s') : Scheduled config s' := by
  cases action with
  | setExecutor =>
      obtain rfl := Option.some.inj hstep
      refine ⟨h.keys, h.bounded, fun _ => ?_⟩
      rcases hdistinct with hset | hidle
      · exact h.busy hset
      · exact hidle
  | enqueue request now later =>
      obtain rfl := Option.some.inj hstep
      unfold TaskQueue.enqueue
      split
      · exact h
      · exact h.enqueue hcount request now later
          (hdistinct (Bool.eq_false_of_not_eq_true ‹_›))
  | cancel id =>
      obtain rfl := Option.some.inj hstep
      unfold TaskQueue.cancel
      split
      · exact h
      · refine ⟨h.keys, h.bounded, fun hexecutor => (h.busy hexecutor).imp_left fun hempty => ?_⟩
        rw [hempty, List.eraseIdx_nil]
  | settle i settlement now later =>
      obtain ⟨ticket, hticket, rfl⟩ := Option.map_eq_some_iff.mp hstep
      exact h.settle hcount hticket settlement now later (hdistinct ticket hticket)

/-- Where the limit is a count, the executor is set before tasks wait beside a free place, and no
task is started while a call of its id is in flight, the queue keeps its law. -/
theorem task_queue_law (hcount : IsCount config.concurrent)
    (h : (taskQueueMachine Value config).ReachableUnder (DistinctCalls config) s) :
    TaskQueueLaw config s := by
  have hacc : Accounted s := accounted_of_reachable h.reachable
  have hscheduled : Scheduled config s := by
    refine h.invariant ?_ fun _ _ _ hs hdistinct hstep => hs.step hcount hdistinct hstep
    exact ⟨rfl, hcount.not_lt_zero, fun hexecutor => by cases hexecutor⟩
  exact ⟨hscheduled.bounded, hscheduled.busy, fun _ _ hstep => hacc.ordered hstep, hacc.once,
    hacc.calls⟩

end Proofs

/-! ## One id for two tasks -/

def queueRequest (id : String) (priority : TaskPriority) : TaskRequest String where
  id := id
  skillId := "summarize"
  input := "text"
  priority := priority
  requesterId := "agent"

/-- A queue that runs two tasks at a time. -/
def pairQueue : TaskQueueConfig where
  maxConcurrent := some (.ofInt 2)

theorem isCount_pairQueue : IsCount pairQueue.concurrent := .inr ⟨2, rfl⟩

/-- Tasks of four ids, one of which waits and is started when a call settles. -/
theorem task_queue_law_three :
    ∃ s : TaskQueue String, s.calls.map (fun call => call.task.id) = ["b", "d"] ∧
      s.queue.map (fun ticket => ticket.task.id) = ["c"] ∧ TaskQueueLaw pairQueue s := by
  have hrun : ((taskQueueMachine String pairQueue).runFrom (taskQueueMachine String pairQueue).init
      [.setExecutor, .enqueue (queueRequest "a" .low) 0 1, .enqueue (queueRequest "b" .low) 2 3,
        .enqueue (queueRequest "c" .normal) 4 5, .enqueue (queueRequest "d" .critical) 6 7,
        .settle 0 (.rejected (some "down")) 8 9]).map (fun s =>
        (s.calls.map fun call => call.task.id, s.queue.map fun ticket => ticket.task.id)) =
      some (["b", "d"], ["c"]) := by
    decide +kernel
  obtain ⟨s, hs, hview⟩ := Option.map_eq_some_iff.mp hrun
  obtain ⟨hcalls, hqueue⟩ := Prod.mk.inj hview
  exact ⟨s, hcalls, hqueue, task_queue_law isCount_pairQueue
    (.runFrom .init (by decide +kernel) hs)⟩

/-- Two tasks of one id are counted once, and a third call starts beside theirs. -/
theorem three_calls :
    ∃ s : TaskQueue String, (taskQueueMachine String pairQueue).Reachable s ∧
      s.calls.map (fun call => call.task.id) = ["a", "a", "b"] ∧ ¬ TaskQueueLaw pairQueue s := by
  have hrun : ((taskQueueMachine String pairQueue).runFrom (taskQueueMachine String pairQueue).init
      [.setExecutor, .enqueue (queueRequest "a" .normal) 0 1,
        .enqueue (queueRequest "a" .normal) 2 3, .enqueue (queueRequest "b" .normal) 4 5]).map
        (fun s => s.calls.map fun call => call.task.id) = some ["a", "a", "b"] := by
    decide +kernel
  obtain ⟨s, hs, hcalls⟩ := Option.map_eq_some_iff.mp hrun
  refine ⟨s, Machine.reachable_of_runFrom hs, hcalls, fun hlaw => ?_⟩
  have hbounded := hlaw.bounded
  rw [← List.length_map (f := fun call : Ticket String => call.task.id), hcalls] at hbounded
  exact absurd hbounded (by decide +kernel)

end ThinkLocal.Tasks
