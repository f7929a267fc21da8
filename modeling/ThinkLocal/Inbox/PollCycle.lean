import Mathlib.Tactic

/-!
# One cycle of the inbox poller

`pollInboxOnce` of `inbox-poller.ts` as a cycle that waits for one answer at a time: of the fetch,
of a delivery or of a mark.
-/

namespace ThinkLocal.Inbox

/-- What the cycle reads of a message. -/
structure PolledMessage where
  message_id : String
  deriving DecidableEq

structure PollResult where
  total : ℕ
  delivered : ℕ
  failed : ℕ
  markFailed : ℕ
  deriving DecidableEq

/-- How a call of `deliver` or `markRead` ends.  What it throws may have no text `String(err)`. -/
inductive PollCallEnd
  | resolved
  | rejected (text : Option String)

/-- What happens in a cycle to the message at a place of the fetched list. -/
inductive PollEvent
  | deliver (i : ℕ) (message : PolledMessage)
  | delivered (i : ℕ) (message : PolledMessage)
  /-- `markRead` is called with the id of the message. -/
  | markRead (i : ℕ) (message : PolledMessage)
  deriving DecidableEq

inductive PollPhase
  | fetching
  | delivering (i : ℕ) (message : PolledMessage) (rest : List PolledMessage)
  | marking (i : ℕ) (message : PolledMessage) (rest : List PolledMessage)

/-- A cycle with its counts and its events, the newest first. -/
structure PollCycle where
  phase : PollPhase := .fetching
  messages : List PolledMessage := []
  delivered : ℕ := 0
  failed : ℕ := 0
  markFailed : ℕ := 0
  trace : List PollEvent := []

/-- What a cycle waits for. -/
inductive PollAnswer
  | fetched (messages : List PolledMessage)
  | fetchFailed (text : Option String)
  | ended (result : PollCallEnd)

/-- A cycle after an answer: it goes on, or `pollInboxOnce` has settled. -/
inductive PollNext
  | going (cycle : PollCycle)
  | resolved (cycle : PollCycle) (result : PollResult)
  | rejected (cycle : PollCycle) (text : Option String)

/-- The text of the error that `String(err)` throws. -/
def noPrimitive : String := "Cannot convert object to primitive value"

namespace PollCycle

variable (c : PollCycle)

/-- The head of the loop over the messages. -/
def next (i : ℕ) : List PolledMessage → PollNext
  | [] => .resolved c
      { total := c.messages.length, delivered := c.delivered, failed := c.failed
        markFailed := c.markFailed }
  | message :: rest => .going
      { c with phase := .delivering i message rest, trace := .deliver i message :: c.trace }

/-- The answer that a cycle gets; one that it does not wait for does not occur. -/
def answer : PollAnswer → Option PollNext
  | .fetched messages => match c.phase with
      | .fetching => some ({ c with messages := messages }.next 0 messages)
      | _ => none
  | .fetchFailed text => match c.phase with
      | .fetching => some (.rejected c text)
      | _ => none
  | .ended result => match c.phase, result with
      | .fetching, _ => none
      | .delivering i message rest, .resolved => some (.going
          { c with
            phase := .marking i message rest
            trace := .markRead i message :: .delivered i message :: c.trace })
      | .delivering i _ rest, .rejected (some _) =>
          some ({ c with failed := c.failed + 1 }.next (i + 1) rest)
      | .marking i _ rest, .resolved =>
          some ({ c with delivered := c.delivered + 1 }.next (i + 1) rest)
      | .marking i _ rest, .rejected (some _) =>
          some ({ c with markFailed := c.markFailed + 1 }.next (i + 1) rest)
      -- the text for the log is taken outside any `try`
      | _, .rejected none => some (.rejected c (some noPrimitive))

end PollCycle

/-! ## The law of a cycle -/

/-- Every message is marked after its delivery, and once; the newest event comes first. -/
def MarksAfterDelivery : List PollEvent → Prop
  | [] => True
  | .markRead i message :: earlier =>
      (.delivered i message ∈ earlier ∧ ∀ other, .markRead i other ∉ earlier) ∧
        MarksAfterDelivery earlier
  | .deliver _ _ :: earlier | .delivered _ _ :: earlier => MarksAfterDelivery earlier

/-- Messages before this place only have been marked. -/
def MarksBelow (i : ℕ) (trace : List PollEvent) : Prop :=
  ∀ j message, .markRead j message ∈ trace → j < i

/-- A cycle on its way. -/
structure CycleLaw (c : PollCycle) : Prop where
  marks : MarksAfterDelivery c.trace
  below : match c.phase with
    | .fetching => MarksBelow 0 c.trace
    | .delivering i _ _ => MarksBelow i c.trace
    | .marking i _ _ => MarksBelow (i + 1) c.trace
  total : match c.phase with
    | .fetching => c.delivered + c.failed + c.markFailed = 0
    | .delivering _ _ rest | .marking _ _ rest =>
        c.messages.length = c.delivered + c.failed + c.markFailed + (rest.length + 1)

/-- A result accounts for all messages. -/
def PollResult.Adds (result : PollResult) : Prop :=
  result.total = result.delivered + result.failed + result.markFailed

/-- The law for a cycle after an answer. -/
def PollNext.Lawful : PollNext → Prop
  | .going c => CycleLaw c
  | .resolved c result => MarksAfterDelivery c.trace ∧ result.Adds
  | .rejected c _ => MarksAfterDelivery c.trace

variable {c : PollCycle} {i : ℕ}

theorem MarksBelow.mono {j : ℕ} {trace : List PollEvent} (h : MarksBelow i trace) (hij : i ≤ j) :
    MarksBelow j trace :=
  fun k message hk => (h k message hk).trans_le hij

theorem MarksBelow.deliver {trace : List PollEvent} (h : MarksBelow i trace)
    (message : PolledMessage) : MarksBelow i (.deliver i message :: trace) := by
  intro j other hj
  exact h j other ((List.mem_cons.mp hj).resolve_left fun heq => by cases heq)

/-- After its delivery the message of the place is marked for the first time. -/
theorem lawful_mark {rest : List PolledMessage} (hmarks : MarksAfterDelivery c.trace)
    (hbelow : MarksBelow i c.trace) (message : PolledMessage)
    (htotal : c.messages.length = c.delivered + c.failed + c.markFailed + (rest.length + 1)) :
    CycleLaw
      { c with
        phase := .marking i message rest
        trace := .markRead i message :: .delivered i message :: c.trace } := by
  have hold : ∀ j other, .markRead j other ∈ PollEvent.delivered i message :: c.trace → j < i :=
    fun j other hj =>
      hbelow j other ((List.mem_cons.mp hj).resolve_left fun heq => by cases heq)
  refine ⟨⟨⟨List.mem_cons_self, fun other hmem => ?_⟩, hmarks⟩, fun j other hj => ?_, htotal⟩
  · exact lt_irrefl i (hold i other hmem)
  · rcases List.mem_cons.mp hj with heq | hj
    · injection heq with hji
      exact hji ▸ Nat.lt_succ_self i
    · exact (hold j other hj).trans (Nat.lt_succ_self i)

/-- The head of the loop keeps the account of what is left. -/
theorem lawful_next {rest : List PolledMessage} (hmarks : MarksAfterDelivery c.trace)
    (hbelow : MarksBelow i c.trace)
    (htotal : c.messages.length = c.delivered + c.failed + c.markFailed + rest.length) :
    (c.next i rest).Lawful := by
  cases rest with
  | nil => exact ⟨hmarks, htotal⟩
  | cons message rest => exact ⟨hmarks, hbelow.deliver message, htotal⟩

theorem CycleLaw.answer (h : CycleLaw c) {answer : PollAnswer} {next : PollNext}
    (hnext : c.answer answer = some next) : next.Lawful := by
  obtain ⟨hmarks, hbelow, htotal⟩ := h
  cases answer with
  | fetched messages =>
      unfold PollCycle.answer at hnext
      cases hphase : c.phase with
      | fetching =>
          simp only [hphase] at hnext hbelow htotal
          obtain rfl := Option.some.inj hnext
          exact lawful_next hmarks hbelow (by dsimp only; omega)
      -- an answer that the phase does not wait for does not occur
      | delivering => simp only [hphase] at hnext; cases hnext
      | marking => simp only [hphase] at hnext; cases hnext
  | fetchFailed text =>
      unfold PollCycle.answer at hnext
      cases hphase : c.phase with
      | fetching =>
          simp only [hphase] at hnext
          obtain rfl := Option.some.inj hnext
          exact hmarks
      | delivering => simp only [hphase] at hnext; cases hnext
      | marking => simp only [hphase] at hnext; cases hnext
  | ended result =>
      unfold PollCycle.answer at hnext
      cases hphase : c.phase with
      | fetching => simp only [hphase] at hnext; cases hnext
      | delivering i message rest =>
          simp only [hphase] at hnext hbelow htotal
          cases result with
          | resolved =>
              obtain rfl := Option.some.inj hnext
              exact lawful_mark hmarks hbelow message htotal
          | rejected text =>
              cases text with
              | none => obtain rfl := Option.some.inj hnext; exact hmarks
              | some text =>
                  obtain rfl := Option.some.inj hnext
                  exact lawful_next hmarks (hbelow.mono (Nat.le_succ i)) (by dsimp only; omega)
      | marking i message rest =>
          simp only [hphase] at hnext hbelow htotal
          cases result with
          | resolved =>
              obtain rfl := Option.some.inj hnext
              exact lawful_next hmarks hbelow (by dsimp only; omega)
          | rejected text =>
              cases text with
              | none => obtain rfl := Option.some.inj hnext; exact hmarks
              | some text =>
                  obtain rfl := Option.some.inj hnext
                  exact lawful_next hmarks hbelow (by dsimp only; omega)

end ThinkLocal.Inbox
