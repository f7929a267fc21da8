import ThinkLocal.Foundation.InsertionMap
import ThinkLocal.Foundation.Optimistic

/-!
# The life cycle of executions

`ExecutionStateStore` of `execution-state.ts`.  Every statement is atomic, and the calls of any
number of processes interleave between the read and the guarded update of a transition.  The store
is an instance of optimistic transitions; `completed_at` is what it adds to them.
-/

namespace ThinkLocal.Tasks

open Foundation

inductive ExecutionLifecycleState
  | accepted
  | running
  | completed
  | failed
  | aborted
  deriving DecidableEq, Repr

inductive ExecutionType
  | taskRequest
  | skillExecute
  | messageReply
  deriving DecidableEq, Repr

namespace ExecutionLifecycleState

def isTerminal : ExecutionLifecycleState → Bool
  | completed | failed | aborted => true
  | accepted | running => false

/-- `valid[state] ?? []`. -/
def next : ExecutionLifecycleState → List ExecutionLifecycleState
  | accepted => [running, aborted]
  | running => [completed, failed, aborted]
  | completed | failed | aborted => []

def valid (current newState : ExecutionLifecycleState) : Bool := newState ∈ current.next

def rank : ExecutionLifecycleState → ℕ
  | accepted => 0
  | running => 1
  | completed | failed | aborted => 2

theorem rank_lt_of_valid (a b : ExecutionLifecycleState) (h : valid a b = true) :
    rank a < rank b := by
  revert h
  cases a <;> cases b <;> decide

theorem rank_le (a : ExecutionLifecycleState) : rank a ≤ 2 := by
  cases a <;> decide

theorem not_isTerminal_of_valid {a b : ExecutionLifecycleState} (h : valid a b = true) :
    a.isTerminal = false := by
  revert h
  cases a <;> cases b <;> decide

end ExecutionLifecycleState

open ExecutionLifecycleState

/-! ## The table -/

structure ExecutionStateRow where
  instance_uuid : String
  message_id : Option String
  lifecycle_state : ExecutionLifecycleState
  execution_type : Option ExecutionType
  started_at : Option String
  completed_at : Option String
  updated_at : String

abbrev ExecutionTable := InsertionMap String ExecutionStateRow

/-- The row that `create` inserts. -/
def newExecution (instanceUuid : String) (executionType : Option ExecutionType)
    (messageId : Option String) (now : String) : ExecutionStateRow where
  instance_uuid := instanceUuid
  message_id := messageId
  lifecycle_state := .accepted
  execution_type := executionType
  started_at := some now
  completed_at := none
  updated_at := now

/-- `UPDATE .. WHERE execution_id = ? AND lifecycle_state = ?`, with the number of changed rows. -/
def updateGuarded (rows : ExecutionTable) (executionId : String)
    (current newState : ExecutionLifecycleState) (now : String) : ExecutionTable × ℕ :=
  let completedAt := if newState.isTerminal then some now else none
  match rows.get executionId with
  | some row =>
      if row.lifecycle_state = current then
        (rows.set executionId
          { row with
            lifecycle_state := newState
            completed_at := completedAt.or row.completed_at
            updated_at := now }, 1)
      else (rows, 0)
  | none => (rows, 0)

/-! ## The store and its calls -/

/-- The table and the calls of `transition` that passed the check.  `ended` lists their updates
with what they returned, `log` those that returned true. -/
structure ExecutionStateStore where
  rows : ExecutionTable
  calls : List (Optimistic.Attempt String ExecutionLifecycleState)
  ended : List (ℕ × Bool)
  log : List ℕ

inductive ExecutionAction
  /-- An insert with a drawn id; it throws where the id is taken. -/
  | create (executionId instanceUuid : String) (executionType : Option ExecutionType)
      (messageId : Option String) (now : String)
  /-- `transition` up to its check. -/
  | check (executionId : String) (newState : ExecutionLifecycleState)
  /-- The update of a call that passed. -/
  | update (call : ℕ) (now : String)

namespace ExecutionStateStore

def create (s : ExecutionStateStore) (executionId instanceUuid : String)
    (executionType : Option ExecutionType) (messageId : Option String) (now : String) :
    Option ExecutionStateStore :=
  if s.rows.get executionId = none then
    some { s with
      rows := s.rows.set executionId (newExecution instanceUuid executionType messageId now) }
  else none

/-- A call that fails the check returns false at once. -/
def check (s : ExecutionStateStore) (executionId : String) (newState : ExecutionLifecycleState) :
    ExecutionStateStore :=
  match s.rows.get executionId with
  | some current =>
      if valid current.lifecycle_state newState then
        { s with calls := s.calls ++ [⟨executionId, current.lifecycle_state, newState⟩] }
      else s
  | none => s

def update (s : ExecutionStateStore) (call : ℕ)
    (a : Optimistic.Attempt String ExecutionLifecycleState) (now : String) :
    ExecutionStateStore :=
  let (rows, changes) := updateGuarded s.rows a.key a.read a.target now
  { s with
    rows := rows
    ended := s.ended ++ [(call, decide (0 < changes))]
    log := if 0 < changes then s.log ++ [call] else s.log }

/-- The states of the executions, without what else a row holds. -/
def abstract (s : ExecutionStateStore) : Optimistic.State String ExecutionLifecycleState where
  value executionId := (s.rows.get executionId).map (·.lifecycle_state)
  calls := s.calls
  ended := s.ended
  log := s.log

/-- The states that an execution went through. -/
def path (s : ExecutionStateStore) (executionId : String) : List ExecutionLifecycleState :=
  s.abstract.path .accepted executionId

end ExecutionStateStore

def executions : Machine ExecutionStateStore ExecutionAction where
  init := ⟨.empty, [], [], []⟩
  step s
    | .create executionId instanceUuid executionType messageId now =>
        s.create executionId instanceUuid executionType messageId now
    | .check executionId newState => some (s.check executionId newState)
    | .update call now =>
        if call ∈ s.ended.map Prod.fst then none
        else (s.calls[call]?).map fun a => s.update call a now

/-! ## The store follows the optimistic machine -/

def ExecutionAction.abstract : ExecutionAction → Optimistic.Action String ExecutionLifecycleState
  | create executionId .. => .create executionId
  | check executionId newState => .read executionId newState
  | update call _ => .update call

section Runs

variable {s s' : ExecutionStateStore} {action : ExecutionAction} {executionId : String}

theorem value_set (rows : ExecutionTable) (executionId : String) (row : ExecutionStateRow) :
    (fun id => ((rows.set executionId row).get id).map (·.lifecycle_state)) =
      Function.update (fun id => (rows.get id).map (·.lifecycle_state)) executionId
        (some row.lifecycle_state) := by
  funext id
  by_cases hid : id = executionId
  · subst hid
    rw [InsertionMap.get_set_self, Function.update_self]
    rfl
  · rw [InsertionMap.get_set_of_ne _ _ hid, Function.update_of_ne hid]

theorem abstract_step (h : executions.step s action = some s') :
    (Optimistic.machine .accepted valid).step s.abstract action.abstract = some s'.abstract := by
  cases action with
  | create executionId instanceUuid executionType messageId now =>
      simp only [executions, ExecutionStateStore.create] at h
      split_ifs at h with hnone
      obtain rfl := Option.some.inj h
      simp only [ExecutionAction.abstract, Optimistic.machine, ExecutionStateStore.abstract, hnone,
        Option.map_none, if_true, value_set]
      rfl
  | check executionId newState =>
      obtain rfl := Option.some.inj h
      simp only [ExecutionAction.abstract, Optimistic.machine, ExecutionStateStore.abstract,
        ExecutionStateStore.check]
      cases hrow : s.rows.get executionId with
      | none => rfl
      | some current =>
          dsimp only [Option.map_some]
          split_ifs <;> rfl
  | update call now =>
      simp only [executions] at h
      split_ifs at h with hended
      obtain ⟨a, ha, rfl⟩ := Option.map_eq_some_iff.mp h
      have hended' : call ∉ s.abstract.ended.map Prod.fst := hended
      have ha' : s.abstract.calls[call]? = some a := ha
      simp only [ExecutionAction.abstract, Optimistic.machine]
      rw [if_neg hended', ha', Option.map_some]
      congr 1
      unfold Optimistic.runUpdate ExecutionStateStore.update updateGuarded
      cases hrow : s.rows.get a.key with
      | none => simp [ExecutionStateStore.abstract, hrow]
      | some row =>
          by_cases hstate : row.lifecycle_state = a.read
          · simp [ExecutionStateStore.abstract, hrow, hstate, value_set]
          · simp [ExecutionStateStore.abstract, hrow, hstate]

theorem abstract_reachable (h : executions.Reachable s) :
    (Optimistic.machine .accepted valid).Reachable s.abstract := by
  induction h with
  | init => exact .init
  | step _ _ hstep ih => exact .step ih trivial (abstract_step hstep)

/-- The store inherits the invariant. -/
theorem optimistic_inv (h : executions.Reachable s) :
    Optimistic.Inv .accepted valid rank s.abstract :=
  Optimistic.inv_of_reachable rank_lt_of_valid (abstract_reachable h)

/-! ## Paths -/

/-- The complete lives of an execution. -/
def lifePaths : List (List ExecutionLifecycleState) :=
  [[.accepted, .running, .completed], [.accepted, .running, .failed],
    [.accepted, .running, .aborted], [.accepted, .aborted]]

/-- Allowed transitions lead along the beginning of a life. -/
theorem prefix_lifePath {rest : List ExecutionLifecycleState}
    (h : (ExecutionLifecycleState.accepted :: rest).IsChain fun a b => valid a b = true) :
    ∃ life ∈ lifePaths, ExecutionLifecycleState.accepted :: rest <+: life := by
  -- two transitions lead to a terminal state, from which there is none
  have hnext : ∀ a b, valid a b = true → b ∈ a.next := fun _ _ h => of_decide_eq_true h
  match rest with
  | [] => exact ⟨_, List.mem_cons_self, by decide⟩
  | [b] =>
      have hb := hnext _ _ (List.isChain_cons_cons.mp h).1
      simp only [ExecutionLifecycleState.next, List.mem_cons, List.not_mem_nil, or_false] at hb
      rcases hb with rfl | rfl
      · exact ⟨_, List.mem_cons_self, by decide⟩
      · exact ⟨[.accepted, .aborted], by decide, by decide⟩
  | b :: c :: rest =>
      obtain ⟨hvalid, htail⟩ := List.isChain_cons_cons.mp h
      obtain ⟨hc, hlast⟩ := List.isChain_cons_cons.mp htail
      have hb := hnext _ _ hvalid
      simp only [ExecutionLifecycleState.next, List.mem_cons, List.not_mem_nil, or_false] at hb
      rcases hb with rfl | rfl
      · have hrest : rest = [] := by
          cases rest with
          | nil => rfl
          | cons d rest =>
              have hd := rank_lt_of_valid _ _ (List.isChain_cons_cons.mp hlast).1
              have hrank := rank_lt_of_valid _ _ hc
              have hrunning : rank .running = 1 := rfl
              have hmax := rank_le d
              omega
        subst hrest
        refine ⟨[.accepted, .running, c], ?_, List.prefix_rfl⟩
        revert hc
        cases c <;> decide
      · exact absurd (hnext _ _ hc) (by simp [ExecutionLifecycleState.next])

/-! ## The time of the end -/

/-- `completed_at` is set exactly in the terminal states. -/
def EndMarked (rows : ExecutionTable) : Prop :=
  ∀ executionId row, rows.get executionId = some row →
    (row.completed_at.isSome ↔ row.lifecycle_state.isTerminal = true)

theorem EndMarked.set {rows : ExecutionTable} (h : EndMarked rows) {row : ExecutionStateRow}
    (hrow : row.completed_at.isSome ↔ row.lifecycle_state.isTerminal = true) :
    EndMarked (rows.set executionId row) := by
  intro id row' hget
  by_cases hid : id = executionId
  · subst hid
    rw [InsertionMap.get_set_self] at hget
    obtain rfl := Option.some.inj hget
    exact hrow
  · rw [InsertionMap.get_set_of_ne _ _ hid] at hget
    exact h id row' hget

/-- An update from a state that is not terminal marks the end of the execution, if it is one. -/
theorem EndMarked.updateGuarded {rows : ExecutionTable} (h : EndMarked rows)
    {current newState : ExecutionLifecycleState} (hvalid : valid current newState = true)
    (now : String) : EndMarked (updateGuarded rows executionId current newState now).1 := by
  unfold Tasks.updateGuarded
  cases hrow : rows.get executionId with
  | none => exact h
  | some row =>
      dsimp only
      by_cases hstate : row.lifecycle_state = current
      · rw [if_pos hstate]
        refine h.set ?_
        have hopen : row.completed_at = none := by
          have hmarked := h executionId row hrow
          rw [hstate, not_isTerminal_of_valid hvalid] at hmarked
          simpa using hmarked
        rw [hopen]
        cases hend : newState.isTerminal <;> simp
      · rw [if_neg hstate]
        exact h

theorem endMarked_step (hinv : Optimistic.Inv .accepted valid rank s.abstract)
    (h : EndMarked s.rows) (hstep : executions.step s action = some s') : EndMarked s'.rows := by
  cases action with
  | create executionId instanceUuid executionType messageId now =>
      simp only [executions, ExecutionStateStore.create] at hstep
      split_ifs at hstep
      obtain rfl := Option.some.inj hstep
      exact h.set (by simp [newExecution, isTerminal])
  | check executionId newState =>
      obtain rfl := Option.some.inj hstep
      unfold ExecutionStateStore.check
      split
      · split_ifs <;> exact h
      · exact h
  | update call now =>
      simp only [executions] at hstep
      split_ifs at hstep
      obtain ⟨a, ha, rfl⟩ := Option.map_eq_some_iff.mp hstep
      exact h.updateGuarded (hinv.read a (List.mem_of_getElem? ha)).2 now

/-- The time of the end is never written again. -/
theorem completed_at_step (hinv : Optimistic.Inv .accepted valid rank s.abstract)
    (hmarked : EndMarked s.rows) (hstep : executions.step s action = some s')
    {row : ExecutionStateRow} {time : String} (hrow : s.rows.get executionId = some row)
    (htime : row.completed_at = some time) :
    ∃ row', s'.rows.get executionId = some row' ∧ row'.completed_at = some time := by
  have hkeep : ∀ {id : String} (row' : ExecutionStateRow), id ≠ executionId →
      (s.rows.set id row').get executionId = some row :=
    fun row' hid => (InsertionMap.get_set_of_ne _ _ hid.symm).trans hrow
  cases action with
  | create id instanceUuid executionType messageId now =>
      simp only [executions, ExecutionStateStore.create] at hstep
      split_ifs at hstep with hnone
      obtain rfl := Option.some.inj hstep
      have hid : id ≠ executionId := by
        rintro rfl
        rw [hrow] at hnone
        cases hnone
      exact ⟨row, hkeep _ hid, htime⟩
  | check id newState =>
      obtain rfl := Option.some.inj hstep
      refine ⟨row, ?_, htime⟩
      unfold ExecutionStateStore.check
      split
      · split_ifs <;> exact hrow
      · exact hrow
  | update call now =>
      simp only [executions] at hstep
      split_ifs at hstep
      obtain ⟨a, ha, rfl⟩ := Option.map_eq_some_iff.mp hstep
      refine ⟨row, ?_, htime⟩
      change (updateGuarded s.rows a.key a.read a.target now).1.get executionId = some row
      unfold updateGuarded
      cases hold : s.rows.get a.key with
      | none => exact hrow
      | some old =>
          dsimp only
          by_cases hstate : old.lifecycle_state = a.read
          · rw [if_pos hstate]
            refine hkeep _ ?_
            rintro rfl
            -- no call reads a terminal state
            obtain rfl := Option.some.inj (hold.symm.trans hrow)
            have hterminal := (hmarked a.key old hold).mp (by rw [htime]; rfl)
            rw [hstate, not_isTerminal_of_valid (hinv.read a (List.mem_of_getElem? ha)).2]
              at hterminal
            cases hterminal
          · rw [if_neg hstate]
            exact hrow

theorem endMarked_of_reachable (h : executions.Reachable s) : EndMarked s.rows := by
  refine Machine.ReachableUnder.invariant_with (fun _ hs => optimistic_inv hs) ?_
    (fun _ _ _ hinv hmarked _ hstep => endMarked_step hinv hmarked hstep) h
  intro _ _ hget
  cases hget

/-! ## The life cycle -/

/-- The law of the life cycle for the state of a run. -/
structure LifeCycle (s : ExecutionStateStore) : Prop where
  path : ∀ executionId row, s.rows.get executionId = some row →
    (s.path executionId).getLast? = some row.lifecycle_state ∧
      ∃ life ∈ lifePaths, s.path executionId <+: life
  /-- Of the racing calls out of one state exactly one has returned true, once one has updated. -/
  race : ∀ e ∈ s.ended, ∀ a, s.calls[e.1]? = some a →
    ∃! call, (call, true) ∈ s.ended ∧
      ∃ b, s.calls[call]? = some b ∧ b.key = a.key ∧ b.read = a.read
  history : ∀ call, s.log.count call = if (call, true) ∈ s.ended then 1 else 0
  completed : EndMarked s.rows

/-- Every interleaving of the calls of a store keeps the life cycle of its executions, and no step
changes the time at which an execution ended. -/
theorem execution_life_cycle (h : executions.Reachable s) :
    LifeCycle s ∧ ∀ action s', executions.step s action = some s' →
      ∀ executionId row time, s.rows.get executionId = some row → row.completed_at = some time →
        ∃ row', s'.rows.get executionId = some row' ∧ row'.completed_at = some time := by
  have hinv := optimistic_inv h
  have hmarked := endMarked_of_reachable h
  refine ⟨⟨fun id row hrow => ⟨?_, prefix_lifePath (hinv.chain id)⟩, ?_, ?_, hmarked⟩, ?_⟩
  · refine hinv.last id row.lifecycle_state ?_
    simp [ExecutionStateStore.abstract, hrow]
  · exact fun e he a ha => hinv.existsUnique_winner he ha
  · intro call
    split_ifs with hcall
    · exact List.count_eq_one_of_mem hinv.log_nodup (hinv.mem_log_iff.mpr hcall)
    · exact List.count_eq_zero.mpr fun hmem => hcall (hinv.mem_log_iff.mp hmem)
  · exact fun _ _ hstep _ _ _ hrow htime => completed_at_step hinv hmarked hstep hrow htime

end Runs

/-- Three calls that read one execution as accepted; the third one updates first. -/
def threeRacers : List ExecutionAction :=
  [.create "e" "i" none none "t0", .check "e" .running, .check "e" .running, .check "e" .aborted,
    .update 2 "t1", .update 0 "t2", .update 1 "t3"]

/-- The calls 0 and 1 race out of one state, and neither of them returns true. -/
theorem third_racer_wins : ∃ s, executions.Reachable s ∧
    s.calls.map (fun a => (a.key, a.read)) =
      [("e", .accepted), ("e", .accepted), ("e", .accepted)] ∧
    s.ended = [(2, true), (0, false), (1, false)] := by
  have hrun : (executions.runFrom executions.init threeRacers).map
      (fun s => (s.calls.map fun a => (a.key, a.read), s.ended)) =
        some ([("e", .accepted), ("e", .accepted), ("e", .accepted)],
          [(2, true), (0, false), (1, false)]) := by decide +kernel
  obtain ⟨s, hs, hresult⟩ := Option.map_eq_some_iff.mp hrun
  exact ⟨s, Machine.reachable_of_runFrom hs, Prod.mk.inj hresult⟩

/-- A transition from `accepted` by way of `running` to `completed`. -/
theorem execution_life_cycle_completed : ∃ s, executions.Reachable s ∧
    s.path "e" = [.accepted, .running, .completed] ∧ LifeCycle s := by
  have hrun : (executions.runFrom executions.init [.create "e" "i" none none "t0",
      .check "e" .running, .update 0 "t1", .check "e" .completed, .update 1 "t2"]).map
        (fun s => s.path "e") = some [.accepted, .running, .completed] := by decide +kernel
  obtain ⟨s, hs, hpath⟩ := Option.map_eq_some_iff.mp hrun
  have hreachable := Machine.reachable_of_runFrom hs
  exact ⟨s, hreachable, hpath, (execution_life_cycle hreachable).1⟩

end ThinkLocal.Tasks
