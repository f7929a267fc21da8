import ThinkLocal.Js.Value
import ThinkLocal.Mcp.ServiceRegistry

/-!
# Approval channels

`meldekanal.ts`.  A channel is code that the registry does not trust: its calls may
throw, reject, never settle or settle late, and a decision may be any value.  An
exception of the registry itself is the `error` of an `Except`.
-/

namespace ThinkLocal.Approval

open Js Mcp

inductive ApprovalOutcome
  | approved
  | rejected
  | deniedNoChannel
  | timeout
  | error
  deriving DecidableEq, Repr

def ApprovalOutcome.text : ApprovalOutcome → String
  | approved => "approved"
  | rejected => "rejected"
  | deniedNoChannel => "denied-no-channel"
  | timeout => "timeout"
  | error => "error"

/-- `VALID_OUTCOMES`. -/
def validOutcomes : List ApprovalOutcome :=
  [.approved, .rejected, .deniedNoChannel, .timeout, .error]

structure ApprovalRequest where
  requestId : String
  server : String
  tool : String
  tier : McpExecutionTier
  senderUri : String
  summary : String

/-- A decision; a note that was read off an exception may be any value. -/
structure ApprovalDecision where
  outcome : ApprovalOutcome
  channelId : Option String := none
  note : Option JsValue := none

/-- A channel with the events in which the timers of its two calls fire. -/
structure Meldekanal where
  id : String
  isHealthy : Call
  healthTimer : Nat
  requestApproval : ApprovalRequest → Call
  approvalTimer : Nat

/-- `isApproved` of an untrusted decision; it reads the outcome for the first time. -/
def isApproved (decision : JsValue) : Except JsValue Bool :=
  (decision.get "outcome" 0).map fun outcome => outcome.isString "approved"

/-! ## Notes and decisions -/

def errNote (error : JsValue) : Except JsValue JsValue := do
  if ← error.isError then error.get "message" 0
  else return .string (← error.toText)

/-- The outcome that a value names. -/
def outcomeOf (value : JsValue) : Option ApprovalOutcome :=
  validOutcomes.find? fun outcome => value.isString outcome.text

/-- The decision for an outcome that is not valid. -/
def unknownOutcome (outcome : JsValue) (channelId : String) : ApprovalDecision :=
  let label :=
    match outcome.toText with
    | .ok text => text
    | .error _ => "<" ++ outcome.typeof ++ ">"
  { outcome := .error, channelId := channelId
    note := some (.string ("channel returned unknown outcome: " ++ label)) }

/-- The own `note` of a decision. -/
def readNote (raw : JsValue) : Except JsValue JsValue := do
  if ← raw.hasOwn "note" then raw.get "note" 0 else return .undefined

/-- The `try` of `normalizeDecision`: the own `outcome` and the own `note`; `none` without
an own outcome. -/
def readDecision (raw : JsValue) : Except JsValue (Option (JsValue × JsValue)) := do
  if ← raw.hasOwn "outcome" then
    let outcome ← raw.get "outcome" 0
    let note ← readNote raw
    return some (outcome, note)
  else return none

/-- The note of a valid decision, if it is a text. -/
def textNote : JsValue → Option JsValue
  | .string text => some (.string text)
  | _ => none

/-- The decision for a value that is no object or an array. -/
def nonObject (channelId : String) : ApprovalDecision :=
  { outcome := .error, channelId := channelId
    note := some (.string "channel returned non-object decision") }

/-- `normalizeDecision` after its `try`. -/
def decisionOfRead (channelId : String) :
    Except JsValue (Option (JsValue × JsValue)) → Except JsValue ApprovalDecision
  | .error error => do
      let note ← (← errNote error).template
      return { outcome := .error, channelId := channelId
               note := some (.string ("channel decision threw: " ++ note)) }
  | .ok none =>
      .ok { outcome := .error, channelId := channelId
            note := some (.string "channel returned decision without own outcome") }
  | .ok (some (outcome, note)) =>
      match outcomeOf outcome with
      | none => .ok (unknownOutcome outcome channelId)
      | some outcome =>
          .ok { outcome := outcome, channelId := channelId, note := textNote note }

def normalizeDecision (raw : JsValue) (channelId : String) : Except JsValue ApprovalDecision :=
  if raw.typeof ≠ "object" ∨ raw.isNull then .ok (nonObject channelId)
  else do
    if ← raw.isArray then return nonObject channelId
    else decisionOfRead channelId (readDecision raw)

/-! ## The registry -/

/-- A request: the positions of the channels that were asked for approval, and the
decision. -/
structure Run where
  asked : List Nat
  result : Except JsValue ApprovalDecision

/-- `DenyAllChannel`. -/
def denyAllChannel : Meldekanal where
  id := "deny-all"
  isHealthy := some (0, .fulfilled (.boolean false))
  healthTimer := 1
  requestApproval _ := some (0, .fulfilled .undefined)
  approvalTimer := 1

/-- The channels that the constructor keeps. -/
def registryChannels (channels : List Meldekanal) : List Meldekanal :=
  if channels = [] then [denyAllChannel] else channels

def Meldekanal.healthy (channel : Meldekanal) : Bool :=
  match withTimeout channel.isHealthy channel.healthTimer with
  | .value health => health.isTrue
  | _ => false

/-- The decision of a channel that is asked. -/
def Meldekanal.decide (channel : Meldekanal) (req : ApprovalRequest) :
    Except JsValue ApprovalDecision :=
  match withTimeout (channel.requestApproval req) channel.approvalTimer with
  | .value value => normalizeDecision value channel.id
  | .timeout => .ok { outcome := .timeout, channelId := channel.id }
  | .error error => (errNote error).map fun note =>
      { outcome := .error, channelId := channel.id, note := some note }

/-- The loop of `requestApproval`, from a position on. -/
def requestApprovalFrom (req : ApprovalRequest) : Nat → List Meldekanal → Run
  | _, [] => ⟨[], .ok { outcome := .deniedNoChannel }⟩
  | position, channel :: rest =>
      if channel.healthy then ⟨[position], channel.decide req⟩
      else requestApprovalFrom req (position + 1) rest

def requestApproval (channels : List Meldekanal) (req : ApprovalRequest) : Run :=
  requestApprovalFrom req 0 (registryChannels channels)

/-- The note for a channel that is not healthy. -/
def unhealthyNote (channel : Meldekanal) : String :=
  match withTimeout channel.isHealthy channel.healthTimer with
  | .value _ => "channel unhealthy"
  | .timeout => "health timeout"
  | .error _ => "health error"

def requestApprovalOn (channels : List Meldekanal) (channelId : String) (req : ApprovalRequest) :
    Run :=
  match (registryChannels channels).zipIdx.find? fun p => p.1.id = channelId with
  | none =>
      ⟨[], .ok { outcome := .deniedNoChannel
                 note := some (.string ("unknown channel: " ++ channelId)) }⟩
  | some (channel, position) =>
      if channel.healthy then ⟨[position], channel.decide req⟩
      else
        ⟨[], .ok { outcome := .deniedNoChannel, channelId := channel.id
                   note := some (.string (unhealthyNote channel)) }⟩

end ThinkLocal.Approval
