import ThinkLocal.Foundation.Except
import ThinkLocal.Approval.Meldekanal

/-!
# The registry is fail-closed

A decision `approved` goes back to an own property of what the asked channel
returned in time, and no channel but the one that is meant is asked.  The registry
itself resolves unless it has to make a note of an exception that has no text: that
is the only way in which a request can throw.
-/

namespace ThinkLocal.Approval

open Js Foundation.Except

variable {channel : Meldekanal} {channelId : String} {req : ApprovalRequest} {raw : JsValue}
  {decision : ApprovalDecision}

/-! ## When a decision can be normalised -/

/-- The note of the exception can be put into a text. -/
def NoteHasText (error : JsValue) : Prop :=
  ∃ note text, errNote error = .ok note ∧ note.template = .ok text

/-- Either the value is rejected by its type alone, or asking whether it is an array does
not throw, and what a property access throws has a text. -/
def Readable (raw : JsValue) : Prop :=
  raw.typeof ≠ "object" ∨ raw.isNull = true ∨ raw.isArray = .ok true ∨
    raw.isArray = .ok false ∧ ∀ error, readDecision raw = .error error → NoteHasText error

theorem decisionOfRead_ok_iff (channelId : String)
    (read : Except JsValue (Option (JsValue × JsValue))) :
    (∃ decision, decisionOfRead channelId read = .ok decision) ↔
      ∀ error, read = .error error → NoteHasText error := by
  rcases read with error | - | ⟨outcome, note⟩
  · simp only [decisionOfRead, bind_eq_ok_iff, pure_eq_ok_iff, Except.error.injEq, forall_eq']
    constructor
    · rintro ⟨-, note, hnote, text, htext, -⟩
      exact ⟨note, text, hnote, htext⟩
    · rintro ⟨note, text, hnote, htext⟩
      exact ⟨_, note, hnote, text, htext, rfl⟩
  · refine ⟨fun _ _ h => ?_, fun _ => ⟨_, rfl⟩⟩
    cases h
  · refine ⟨fun _ _ h => ?_, fun _ => ?_⟩
    · cases h
    · rw [decisionOfRead]
      cases outcomeOf outcome <;> exact ⟨_, rfl⟩

theorem normalizeDecision_ok_iff :
    (∃ decision, normalizeDecision raw channelId = .ok decision) ↔ Readable raw := by
  unfold normalizeDecision Readable
  by_cases hvalue : raw.typeof ≠ "object" ∨ raw.isNull = true
  · rw [if_pos hvalue]
    exact ⟨fun _ => hvalue.imp_right .inl, fun _ => ⟨_, rfl⟩⟩
  · rw [if_neg hvalue]
    simp only [bind_eq_ok_iff]
    have hread := decisionOfRead_ok_iff channelId (readDecision raw)
    constructor
    · rintro ⟨decision, isArray, hisArray, hdecision⟩
      cases isArray with
      | true => exact .inr (.inr (.inl hisArray))
      | false => exact .inr (.inr (.inr ⟨hisArray, hread.mp ⟨decision, hdecision⟩⟩))
    · rintro (h | h | hisArray | ⟨hisArray, h⟩)
      · exact absurd (.inl h) hvalue
      · exact absurd (.inr h) hvalue
      · exact ⟨_, true, hisArray, rfl⟩
      · obtain ⟨decision, hdecision⟩ := hread.mpr h
        exact ⟨decision, false, hisArray, hdecision⟩

/-! ## When a value approves -/

/-- An object that is no array, with an own `outcome` that is the text `approved`. -/
def OwnApproved (raw : JsValue) : Prop :=
  raw.typeof = "object" ∧ raw.isArray = .ok false ∧ raw.hasOwn "outcome" = .ok true ∧
    raw.get "outcome" 0 = .ok (.string "approved")

theorem outcomeOf_eq_some {value : JsValue} {outcome : ApprovalOutcome}
    (h : outcomeOf value = some outcome) : value = .string outcome.text := by
  have hfound := List.find?_some h
  exact JsValue.isString_iff.mp hfound

theorem readDecision_eq_some {outcome note : JsValue}
    (h : readDecision raw = .ok (some (outcome, note))) :
    raw.hasOwn "outcome" = .ok true ∧ raw.get "outcome" 0 = .ok outcome := by
  simp only [readDecision, bind_eq_ok_iff] at h
  obtain ⟨own, hown, h⟩ := h
  cases own with
  | false => cases h
  | true =>
      simp only [if_true, bind_eq_ok_iff] at h
      obtain ⟨outcome', hget, note', -, h⟩ := h
      cases h
      exact ⟨hown, hget⟩

theorem decisionOfRead_approved {read : Except JsValue (Option (JsValue × JsValue))}
    (h : decisionOfRead channelId read = .ok decision) (happroved : decision.outcome = .approved) :
    ∃ note, read = .ok (some (.string "approved", note)) := by
  rcases read with error | - | ⟨outcome, note⟩
  · simp only [decisionOfRead, bind_eq_ok_iff, pure_eq_ok_iff] at h
    obtain ⟨_, _, _, _, rfl⟩ := h
    cases happroved
  · cases h
    cases happroved
  · rw [decisionOfRead] at h
    cases houtcome : outcomeOf outcome with
    | none =>
        rw [houtcome] at h
        cases h
        cases happroved
    | some valid =>
        rw [houtcome] at h
        cases h
        obtain rfl : valid = .approved := happroved
        exact ⟨note, by rw [outcomeOf_eq_some houtcome]; rfl⟩

theorem normalizeDecision_approved (h : normalizeDecision raw channelId = .ok decision)
    (happroved : decision.outcome = .approved) : OwnApproved raw := by
  unfold normalizeDecision at h
  by_cases hvalue : raw.typeof ≠ "object" ∨ raw.isNull = true
  · rw [if_pos hvalue] at h
    cases h
    cases happroved
  · rw [if_neg hvalue, bind_eq_ok_iff] at h
    push Not at hvalue
    obtain ⟨isArray, hisArray, h⟩ := h
    cases isArray with
    | true =>
        cases h
        cases happroved
    | false =>
        obtain ⟨note, hread⟩ := decisionOfRead_approved h happroved
        obtain ⟨hown, hget⟩ := readDecision_eq_some hread
        exact ⟨hvalue.1, hisArray, hown, hget⟩

/-! ## The asked channel -/

/-- The registry can make a decision of what the channel does when it is asked. -/
def Meldekanal.Answers (channel : Meldekanal) (req : ApprovalRequest) : Prop :=
  match withTimeout (channel.requestApproval req) channel.approvalTimer with
  | .value raw => Readable raw
  | .timeout => True
  | .error error => ∃ note, errNote error = .ok note

theorem decide_ok_iff :
    (∃ decision, channel.decide req = .ok decision) ↔ channel.Answers req := by
  unfold Meldekanal.decide Meldekanal.Answers
  cases withTimeout (channel.requestApproval req) channel.approvalTimer with
  | value raw => exact normalizeDecision_ok_iff
  | timeout => exact ⟨fun _ => trivial, fun _ => ⟨_, rfl⟩⟩
  | error error =>
      simp only [map_eq_ok_iff]
      constructor
      · rintro ⟨-, note, hnote, -⟩
        exact ⟨note, hnote⟩
      · rintro ⟨note, hnote⟩
        exact ⟨_, note, hnote, rfl⟩

theorem decide_approved (h : channel.decide req = .ok decision)
    (happroved : decision.outcome = .approved) :
    ∃ event raw, channel.requestApproval req = some (event, .fulfilled raw) ∧
      event < channel.approvalTimer ∧ OwnApproved raw := by
  unfold Meldekanal.decide at h
  cases hcall : withTimeout (channel.requestApproval req) channel.approvalTimer with
  | value raw =>
      rw [hcall] at h
      obtain ⟨event, hsettled, hevent⟩ := withTimeout_eq_value hcall
      exact ⟨event, raw, hsettled, hevent, normalizeDecision_approved h happroved⟩
  | timeout =>
      rw [hcall] at h
      cases h
      cases happroved
  | error error =>
      rw [hcall] at h
      obtain ⟨note, -, rfl⟩ := map_eq_ok_iff.mp h
      cases happroved

/-! ## Requests -/

/-- The first healthy channel, with its position. -/
def firstHealthy (channels : List Meldekanal) : Option (Meldekanal × Nat) :=
  channels.zipIdx.find? fun p => p.1.healthy

/-- The first channel with the id, with its position. -/
def firstWithId (channels : List Meldekanal) (channelId : String) : Option (Meldekanal × Nat) :=
  channels.zipIdx.find? fun p => p.1.id = channelId

/-- The request resolves, asks the target for approval once and no other channel, and
approves only if the target returned in time an object whose own outcome approves. -/
structure FailClosed (target : Option (Meldekanal × Nat)) (req : ApprovalRequest) (run : Run) :
    Prop where
  resolves : ∃ decision, run.result = .ok decision
  asked_once : run.asked.length ≤ 1
  asked_target : ∀ position ∈ run.asked, ∃ channel, target = some (channel, position)
  approved : ∀ decision, run.result = .ok decision → decision.outcome = .approved →
    ∃ channel position event raw, target = some (channel, position) ∧ run.asked = [position] ∧
      channel.requestApproval req = some (event, .fulfilled raw) ∧
      event < channel.approvalTimer ∧ OwnApproved raw

/-- A request that asks nobody is fail-closed. -/
theorem FailClosed.of_nobody {target : Option (Meldekanal × Nat)}
    (h : decision.outcome ≠ .approved) : FailClosed target req ⟨[], .ok decision⟩ where
  resolves := ⟨decision, rfl⟩
  asked_once := Nat.zero_le _
  asked_target _ hmem := by cases hmem
  approved decision' hresult happroved := by
    cases hresult
    exact absurd happroved h

/-- A request that asks its target is fail-closed if the target answers. -/
theorem failClosed_ask_iff {position : Nat} :
    FailClosed (some (channel, position)) req ⟨[position], channel.decide req⟩ ↔
      channel.Answers req := by
  constructor
  · intro h
    exact decide_ok_iff.mp h.resolves
  · intro h
    refine ⟨decide_ok_iff.mpr h, le_rfl, ?_, ?_⟩
    · intro position' hmem
      obtain rfl := List.mem_singleton.mp hmem
      exact ⟨channel, rfl⟩
    · intro decision hresult happroved
      obtain ⟨event, raw, hsettled, hevent, hown⟩ := decide_approved hresult happroved
      exact ⟨channel, position, event, raw, rfl, rfl, hsettled, hevent, hown⟩

theorem requestApprovalFrom_eq (position : Nat) (channels : List Meldekanal) :
    requestApprovalFrom req position channels =
      match (channels.zipIdx position).find? fun p => p.1.healthy with
      | some p => ⟨[p.2], p.1.decide req⟩
      | none => ⟨[], .ok { outcome := .deniedNoChannel }⟩ := by
  induction channels generalizing position with
  | nil => rfl
  | cons channel rest ih =>
      rw [requestApprovalFrom, List.zipIdx_cons, List.find?_cons]
      cases hhealthy : channel.healthy with
      | true => rfl
      | false => exact ih (position + 1)

theorem requestApproval_eq (channels : List Meldekanal) :
    requestApproval channels req =
      match firstHealthy channels with
      | some p => ⟨[p.2], p.1.decide req⟩
      | none => ⟨[], .ok { outcome := .deniedNoChannel }⟩ := by
  cases channels with
  | nil => rfl
  | cons channel rest => exact requestApprovalFrom_eq 0 (channel :: rest)

/-- Without channels nobody is asked: the one that the constructor adds is never healthy. -/
theorem requestApprovalOn_nil (channelId : String) (req : ApprovalRequest) :
    ∃ decision, decision.outcome ≠ .approved ∧
      requestApprovalOn [] channelId req = ⟨[], .ok decision⟩ := by
  have hchannels : (registryChannels []).zipIdx = [(denyAllChannel, 0)] := rfl
  rw [requestApprovalOn, hchannels, List.find?_cons]
  cases decide (denyAllChannel.id = channelId) with
  | true =>
      dsimp only
      rw [if_neg (by decide)]
      refine ⟨_, ?_, rfl⟩
      simp
  | false =>
      refine ⟨_, ?_, rfl⟩
      simp

theorem firstWithId_of_ne {channels : List Meldekanal} (h : channels ≠ []) :
    ((registryChannels channels).zipIdx.find? fun p => p.1.id = channelId) =
      firstWithId channels channelId := by
  rw [registryChannels, if_neg h]
  rfl

/-- The requests are fail-closed exactly where the channel that is asked answers: an exception
that it throws, or that its decision throws when it is read, has a text. -/
theorem approval_fail_closed_iff (channels : List Meldekanal) (channelId : String)
    (req : ApprovalRequest) :
    (FailClosed (firstHealthy channels) req (requestApproval channels req) ↔
      ∀ channel position, firstHealthy channels = some (channel, position) →
        channel.Answers req) ∧
    (FailClosed (firstWithId channels channelId) req (requestApprovalOn channels channelId req) ↔
      ∀ channel position, firstWithId channels channelId = some (channel, position) →
        channel.healthy = true → channel.Answers req) := by
  constructor
  · rw [requestApproval_eq]
    -- Nobody is asked, or the first healthy channel is.
    cases htarget : firstHealthy channels with
    | none =>
        refine ⟨fun _ _ _ h => ?_, fun _ => .of_nobody (by decide)⟩
        cases h
    | some p =>
        obtain ⟨channel, position⟩ := p
        simp only [Option.some.injEq, Prod.mk.injEq]
        rw [failClosed_ask_iff]
        constructor
        · rintro h _ _ ⟨rfl, rfl⟩
          exact h
        · exact fun h => h channel position ⟨rfl, rfl⟩
  · rcases eq_or_ne channels [] with rfl | hne
    · obtain ⟨decision, hdecision, hrun⟩ := requestApprovalOn_nil channelId req
      rw [hrun]
      refine ⟨fun _ _ _ h => ?_, fun _ => .of_nobody hdecision⟩
      cases h
    · rw [requestApprovalOn, firstWithId_of_ne hne]
      cases htarget : firstWithId channels channelId with
      | none =>
          refine ⟨fun _ _ _ h => ?_, fun _ => .of_nobody (fun h => by cases h)⟩
          cases h
      | some p =>
          obtain ⟨channel, position⟩ := p
          simp only [Option.some.injEq, Prod.mk.injEq]
          cases hhealthy : channel.healthy with
          | true =>
              rw [if_pos rfl, failClosed_ask_iff]
              constructor
              · rintro h _ _ ⟨rfl, rfl⟩ -
                exact h
              · exact fun h => h channel position ⟨rfl, rfl⟩ hhealthy
          | false =>
              refine ⟨?_, fun _ => .of_nobody (fun h => by cases h)⟩
              rintro _ _ _ ⟨rfl, rfl⟩ htrue
              rw [hhealthy] at htrue
              cases htrue

/-! A healthy channel that rejects with an object without a prototype. -/

def bareChannel : Meldekanal where
  id := "bare"
  isHealthy := some (1, .fulfilled (.boolean true))
  healthTimer := 3000
  requestApproval _ := some (1, .rejected .bare)
  approvalTimer := 60000

/-- Both requests throw. -/
theorem approval_throws :
    ¬ ∀ (channels : List Meldekanal) (channelId : String) (req : ApprovalRequest),
      FailClosed (firstHealthy channels) req (requestApproval channels req) ∧
        FailClosed (firstWithId channels channelId) req
          (requestApprovalOn channels channelId req) := by
  intro h
  have hclosed := (h [bareChannel] "bare" ⟨"r1", "unifi", "block_client", .gate, "uri", ""⟩).1
  obtain ⟨decision, hdecision⟩ := hclosed.resolves
  cases hdecision

end ThinkLocal.Approval
