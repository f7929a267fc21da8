import ThinkLocal.Approval.Meldekanal
import ThinkLocal.Foundation.Arena
import ThinkLocal.Foundation.InsertionMap
import ThinkLocal.Foundation.Machine
import ThinkLocal.Foundation.Segments
import ThinkLocal.Js.Data

/-!
# The Telegram channel

`telegram-meldekanal.ts` on the table of `approvals.ts`.  A request writes a pending row, sends a
prompt and then waits for a click; clicks, aborts and the decisions of other callers come in any
order.  What the transport and the database answer is an input of each step.
-/

namespace ThinkLocal.Approval

open Foundation Js Mcp

/-! ## The table -/

inductive ApprovalType
  | peer_join
  | skill_activate
  | credential_share
  | config_change
  | mcp_gate
deriving DecidableEq

inductive ApprovalStatus
  | pending
  | approved
  | rejected
deriving DecidableEq

/-- A decision of a human: `'approved' | 'rejected'`. -/
inductive Verdict
  | approved
  | rejected
deriving DecidableEq

def Verdict.status : Verdict → ApprovalStatus
  | approved => .approved
  | rejected => .rejected

def Verdict.outcome : Verdict → ApprovalOutcome
  | approved => .approved
  | rejected => .rejected

/-- A row; instants stand for their ISO texts. -/
structure ApprovalRow where
  type : ApprovalType
  status : ApprovalStatus
  payload_json : String
  summary : String
  created_at : Int
  decided_at : Option Int
  decision_note : Option String
deriving DecidableEq

/-- The table `approvals`, by its primary key. -/
abbrev Approvals := InsertionMap String ApprovalRow

structure CreateApprovalInput where
  type : ApprovalType
  payload : Data
  summary : String

/-- What a call of `create` meets: the drawn id, the clock, and whether the `INSERT` throws. -/
structure CreateIo where
  id : String
  now : Int
  fails : Bool

/-- `create`; an id that is taken violates the primary key, and a payload without a text the
column. -/
def create (rows : Approvals) (input : CreateApprovalInput) (io : CreateIo) :
    Approvals × Option String :=
  match input.payload.stringify with
  | some (some payload) =>
      if rows.has io.id ∨ io.fails then (rows, none)
      else
        (rows.set io.id ⟨input.type, .pending, payload, input.summary, io.now, none, none⟩,
          some io.id)
  | _ => (rows, none)

/-- The values of an `UPDATE`. -/
structure Decision where
  status : Verdict
  decided_at : Int
  decision_note : Option String

/-- `UPDATE approvals SET … WHERE id = ? AND status = 'pending'`. -/
def updatePending (rows : Approvals) (id : String) (decision : Decision) : Approvals :=
  match rows.get id with
  | some row =>
      if row.status = .pending then
        rows.set id { row with
          status := decision.status.status
          decided_at := some decision.decided_at
          decision_note := decision.decision_note }
      else rows
  | none => rows

inductive Statement
  | select
  | update
  | reread
deriving DecidableEq

/-- What a call of `decide` meets: the clock, the statement that throws, and what another process
decides between the `SELECT` and the `UPDATE`. -/
structure DecideIo where
  now : Int
  fails : Option Statement
  between : Option Decision

/-- `decide`, with `none` where it throws. -/
def decide (rows : Approvals) (id : String) (status : Verdict) (note : Option String)
    (io : DecideIo) : Approvals × Option (Option ApprovalRow) :=
  if io.fails = some .select then (rows, none)
  else
    match rows.get id with
    | none => (rows, some none)
    | some existing =>
        if existing.status ≠ .pending then (rows, some (some existing))
        else
          let rows :=
            match io.between with
            | none => rows
            | some decision => updatePending rows id decision
          if io.fails = some .update then (rows, none)
          else
            let rows := updatePending rows id ⟨status, io.now, note⟩
            if io.fails = some .reread then (rows, none) else (rows, some (rows.get id))

/-- The service's `isApproved`. -/
def isRowApproved (rows : Approvals) (id : String) : Bool :=
  (rows.get id).any fun row => row.status = .approved

/-! ## The channel -/

def callbackPrefix : String := "tlgate"

structure TelegramPromptRef where
  chatId : String
  messageId : Int
deriving DecidableEq

structure TelegramDecisionEvent where
  data : String
  callbackQueryId : String
  chatId : String
  messageId : Int

/-- The input of `sendPrompt`. -/
structure Prompt where
  chatId : String
  text : String
  approveData : String
  rejectData : String
deriving DecidableEq

/-- The input of `finalize`. -/
structure Finalization where
  ref : TelegramPromptRef
  callbackQueryId : String
  resultText : String

structure TelegramMeldekanalOptions where
  id : String := "telegram"
  chatId : String

structure Pending where
  ref : TelegramPromptRef
  /-- The request whose promise the waiter settles. -/
  request : Nat

def verdictAction : Verdict → String
  | .approved => "approve"
  | .rejected => "reject"

def buildCallbackData (action : Verdict) (approvalId : String) : String :=
  joinSegments ':' [callbackPrefix, verdictAction action, approvalId]

def parseCallbackData (data : String) : Option (Verdict × String) :=
  match segments ':' data with
  | [start, action, approvalId] =>
      if start ≠ callbackPrefix then none
      else if action ≠ "approve" ∧ action ≠ "reject" then none
      else if approvalId = "" then none
      else some (if action = "approve" then .approved else .rejected, approvalId)
  | _ => none

def tierText : McpExecutionTier → String
  | .self => "self"
  | .gate => "gate"
  | .consensus => "consensus"

def renderPrompt (req : ApprovalRequest) (approvalId : String) : String :=
  "🛂 Freigabe erforderlich\n\n" ++
    "Server: " ++ req.server ++ "\n" ++
    "Tool: " ++ req.tool ++ "\n" ++
    "Stufe: " ++ tierText req.tier ++ "\n" ++
    "Sender: " ++ req.senderUri ++ "\n" ++
    req.summary ++ "\n\n" ++
    "Vorgang: " ++ approvalId

def resultText : Verdict → String
  | .approved => "✅ Freigegeben"
  | .rejected => "⛔️ Abgelehnt"

/-- Where a request stands: its prompt is being sent, its promise waits, or it has an answer. -/
inductive Phase
  | sending
  | waiting
  | settled
deriving DecidableEq

structure Request where
  req : ApprovalRequest
  /-- The row of the request, once it is written. -/
  approvalId : Option String
  /-- `signal.aborted`. -/
  aborted : Bool
  phase : Phase

structure State where
  rows : Approvals
  requests : Arena Request
  pending : InsertionMap String Pending
  /-- Every answer to a request, the newest first. -/
  settlements : List (Nat × ApprovalDecision)
  prompts : List Prompt
  finalized : List Finalization

/-- The request as the payload of its row. -/
def ApprovalRequest.payload (req : ApprovalRequest) : Data :=
  .object [("requestId", .string req.requestId), ("server", .string req.server),
    ("tool", .string req.tool), ("tier", .string (tierText req.tier)),
    ("senderUri", .string req.senderUri), ("summary", .string req.summary)]

namespace State

variable (options : TelegramMeldekanalOptions) (s : State)

/-- `{ outcome, channelId: this.id, note }`. -/
def decision (outcome : ApprovalOutcome) (note : Option String := none) : ApprovalDecision :=
  { outcome, channelId := options.id, note := note.map .string }

/-- The call returns before it has made a promise. -/
def answer (request : Nat) (decision : ApprovalDecision) : State :=
  { s with
    requests := s.requests.modify request fun r => { r with phase := .settled }
    settlements := (request, decision) :: s.settlements }

/-- `settle`. -/
def settle (request : Nat) (approvalId : String) (decision : ApprovalDecision) : State :=
  match s.requests.get request with
  | none => s
  | some r =>
      if r.phase = .settled then s
      else { s with pending := s.pending.delete approvalId }.answer request decision

/-- `requestApproval` until it awaits `sendPrompt`. -/
def start (req : ApprovalRequest) (aborted : Bool) (io : CreateIo) : State :=
  let request := s.requests.next
  if aborted then
    { s with requests := s.requests.alloc ⟨req, none, true, .sending⟩ }.answer request
      (decision options .timeout)
  else
    match create s.rows ⟨.mcp_gate, req.payload, req.summary⟩ io with
    | (rows, none) =>
        { s with rows, requests := s.requests.alloc ⟨req, none, false, .sending⟩ }.answer request
          (decision options .error (some "approval persistence failed"))
    | (rows, some approvalId) =>
        { s with
          rows
          requests := s.requests.alloc ⟨req, some approvalId, false, .sending⟩
          prompts := ⟨options.chatId, renderPrompt req approvalId,
            buildCallbackData .approved approvalId, buildCallbackData .rejected approvalId⟩ ::
              s.prompts }

/-- `requestApproval` after `sendPrompt`, which has rejected if there is no reference. -/
def sent (request : Nat) (aborted : Bool) (approvalId : String) :
    Option TelegramPromptRef → State
  | none => s.answer request (decision options .error (some "telegram sendPrompt failed"))
  | some ref =>
      if aborted then s.settle request approvalId (decision options .timeout)
      else
        { s with
          requests := s.requests.modify request fun r => { r with phase := .waiting }
          pending := s.pending.set approvalId ⟨ref, request⟩ }

/-- `resolve` of a waiter; a `finalize` that throws leaves it waiting. -/
def resolve (waiter : Pending) (approvalId : String) (verdict : Verdict)
    (evt : TelegramDecisionEvent) (io : DecideIo) (finalizeThrows : Bool) : State :=
  match decide s.rows approvalId verdict none io with
  | (rows, none) =>
      { s with rows }.settle waiter.request approvalId
        (decision options .error (some "approval persistence failed"))
  | (rows, some _) =>
      let finalized :=
        ⟨waiter.ref, evt.callbackQueryId, resultText verdict⟩ :: s.finalized
      if finalizeThrows then { s with rows, finalized }
      else { s with rows, finalized }.settle waiter.request approvalId
        (decision options verdict.outcome)

/-- The waiter that a click reaches, with the verdict. -/
def reached (evt : TelegramDecisionEvent) : Option (Verdict × String × Pending) :=
  if evt.chatId ≠ options.chatId then none
  else
    (parseCallbackData evt.data).bind fun parsed =>
      (s.pending.get parsed.2).map fun waiter => (parsed.1, parsed.2, waiter)

def routeDecision (evt : TelegramDecisionEvent) (io : DecideIo) (finalizeThrows : Bool) : State :=
  match s.reached options evt with
  | none => s
  | some (verdict, approvalId, waiter) =>
      s.resolve options waiter approvalId verdict evt io finalizeThrows

/-- The signal of a request fires; only a promise that waits listens to it. -/
def abort (request : Nat) (r : Request) : State :=
  let s := { s with requests := s.requests.modify request fun r => { r with aborted := true } }
  match r.phase, r.approvalId with
  | .waiting, some approvalId => s.settle request approvalId (decision options .timeout)
  | _, _ => s

end State

inductive Action
  | request (req : ApprovalRequest) (aborted : Bool) (io : CreateIo)
  | sent (request : Nat) (ref : Option TelegramPromptRef)
  | abort (request : Nat)
  /-- A click, also a late one or one that does not come from a prompt. -/
  | click (evt : TelegramDecisionEvent) (io : DecideIo) (finalizeThrows : Bool)
  /-- `ApprovalService.create` of another caller. -/
  | create (input : CreateApprovalInput) (io : CreateIo)
  /-- `ApprovalService.decide` of another caller. -/
  | decide (id : String) (status : Verdict) (note : Option String) (io : DecideIo)
  | stop

def step (options : TelegramMeldekanalOptions) (s : State) : Action → Option State
  | .request req aborted io => some (s.start options req aborted io)
  | .sent request ref =>
      match s.requests.get request with
      | some ⟨_, some approvalId, aborted, .sending⟩ =>
          some (s.sent options request aborted approvalId ref)
      | _ => none
  | .abort request => (s.requests.get request).map fun r => s.abort options request r
  | .click evt io finalizeThrows => some (s.routeDecision options evt io finalizeThrows)
  | .create input io => some { s with rows := (create s.rows input io).1 }
  | .decide id status note io => some { s with rows := (decide s.rows id status note io).1 }
  | .stop => some { s with pending := .empty }

/-- A channel on a table with any rows. -/
def telegramMeldekanal (options : TelegramMeldekanalOptions) (rows : Approvals) :
    Machine State Action where
  init := ⟨rows, .empty, .empty, [], [], []⟩
  step := step options

end ThinkLocal.Approval
