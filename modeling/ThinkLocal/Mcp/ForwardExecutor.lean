import ThinkLocal.Js.Doubles
import ThinkLocal.Mcp.Ingress

/-!
# The executor of a dispatch

`mcp-forward-exec.ts` and `createMcpForwardExecutor` of `mcp-forward-executor.ts`, with the calls
of its injected functions in their order.  The audit may throw, and what the network and the local
execution answer is left open: a response, an exception or nothing.
-/

namespace ThinkLocal.Mcp

open Js (Number)

/-- The text of a tier in an audit entry. -/
def McpExecutionTier.text : McpExecutionTier → String
  | self => "self"
  | gate => "gate"
  | consensus => "consensus"

/-! ## The specification -/

def DEFAULT_MCP_EXEC_TIMEOUT_MS : Number := .ofInt 30000

def MCPORTER_ARGV_STUB : List String := ["mcporter", "run", "<server>"]

structure BuildMcpExecSpecOptions where
  authorized : Option Bool := none
  timeoutMs : Option Number := none
  mcporterConfigPath : Option String := none

structure McporterLocal where
  server : String
  execution_tier : McpExecutionTier
  argv : List String
  configPath : Option String
  timeoutMs : Number

structure MtlsForward where
  url : String
  method : String
  targetAgentId : String
  senderUri : String
  execution_tier : McpExecutionTier
  requireServerIdentity : Bool
  expectedServerSpiffeId : Option String
  timeoutMs : Number

inductive McpExecSpec
  | mcporterLocal (spec : McporterLocal)
  | mtlsForward (spec : MtlsForward)
  | reject (status : Nat) (reason : String)

def buildMcpExecSpec (dispatch : McpForwardDispatch) (opts : BuildMcpExecSpecOptions) :
    McpExecSpec :=
  let timeoutMs := opts.timeoutMs.getD DEFAULT_MCP_EXEC_TIMEOUT_MS
  if opts.authorized = some false then .reject 403 "sender not authorized"
  else
    match dispatch with
    | .none _ reason => .reject 503 reason
    | .routable (.local server execution_tier) =>
        .mcporterLocal
          { server := server
            execution_tier := execution_tier
            argv := MCPORTER_ARGV_STUB.map fun a => if a = "<server>" then server else a
            configPath := opts.mcporterConfigPath
            timeoutMs := timeoutMs }
    | .routable (.remote req) =>
        let pinActive := req.outboundPolicy.spiffeServerIdentity
        -- An empty identity does not count as one.
        let expectedPresent := decide (req.expectedSpiffeId ≠ none ∧ req.expectedSpiffeId ≠ some "")
        if pinActive ≠ expectedPresent then
          .reject 500 "pin violation: spiffeServerIdentity/expectedSpiffeId inkonsistent"
        else
          .mtlsForward
            { url := req.url
              method := req.method
              targetAgentId := req.targetAgentId
              senderUri := req.senderUri
              execution_tier := req.execution_tier
              requireServerIdentity := pinActive
              expectedServerSpiffeId := if pinActive then req.expectedSpiffeId else none
              timeoutMs := timeoutMs }

/-- A forward is that of a remote dispatch, pinned as the dispatch demands. -/
structure ForwardSpecOf (req : McpForwardRequestPlan) (spec : MtlsForward) : Prop where
  url : spec.url = req.url
  targetAgentId : spec.targetAgentId = req.targetAgentId
  pinned : spec.requireServerIdentity = req.outboundPolicy.spiffeServerIdentity
  expected : spec.requireServerIdentity = true → spec.expectedServerSpiffeId = req.expectedSpiffeId

theorem buildMcpExecSpec_forward {dispatch : RoutableDispatch} {opts : BuildMcpExecSpecOptions}
    {spec : MtlsForward} (h : buildMcpExecSpec (.routable dispatch) opts = .mtlsForward spec) :
    ∃ req, dispatch = .remote req ∧ ForwardSpecOf req spec := by
  unfold buildMcpExecSpec at h
  dsimp only at h
  split_ifs at h
  cases dispatch with
  | «local» server tier => cases h
  | remote req =>
      dsimp only at h
      split_ifs at h with hpin hactive
      · cases h
        exact ⟨req, rfl, rfl, rfl, rfl, fun _ => rfl⟩
      · cases h
        exact ⟨req, rfl, rfl, rfl, rfl, fun h => absurd h hactive⟩

/-! ## The executor -/

def MAX_MCP_FORWARD_HOPS : Number := .ofInt 1

inductive McpAuditEvent
  | forwardTx
  | execLocal
  | forwardReject
  deriving DecidableEq, Repr

structure McpLocalExecRequest where
  server : String
  argv : List String
  configPath : Option String
  payload : Option Registry.Json
  timeoutMs : Number
  execution_tier : McpExecutionTier

structure McpForwardContext where
  incomingHop : Number
  payload : Option Registry.Json
  server : String

structure McpHttpForwardRequest where
  url : String
  hop : Number
  senderUri : String
  payload : Option Registry.Json
  targetAgentId : String
  requireServerIdentity : Bool
  expectedServerSpiffeId : Option String
  timeoutMs : Number

/-- What an injected function answers. -/
structure McpResponse (Body : Type) where
  status : Nat
  body : Body

/-- How an awaited answer settles: never, with the message of an exception or with a response. -/
abbrev Awaited (Body : Type) := Option (Except String (McpResponse Body))

structure McpForwardExecutorDeps (Body : Type) where
  selfAgentId : String
  httpForward : McpHttpForwardRequest → Awaited Body
  /-- Whether the call returns; it throws otherwise. -/
  audit : Option (McpAuditEvent → String → String → Bool)
  timeoutMs : Option Number
  localExec : Option (McpLocalExecRequest → Awaited Body)

inductive ExecutorCall
  | audit (event : McpAuditEvent) (peerId details : String)
  | localExec (request : McpLocalExecRequest)
  | httpForward (request : McpHttpForwardRequest)

/-- `text.slice(0, length)`. -/
structure Cut where
  text : String
  length : Nat

structure ExecutorBody where
  error : String
  server : String
  detail : Option Cut := none
  hop : Option Number := none

inductive ExecutorResult (Body : Type)
  | response (status : Nat) (body : ExecutorBody)
  /-- The response of the injected function. -/
  | passed (response : McpResponse Body)
  | threw
  | pending

structure ExecutorRun (Body : Type) where
  calls : List ExecutorCall
  result : ExecutorResult Body

section Executor

variable {Body : Type} (deps : McpForwardExecutorDeps Body)

/-- `deps.audit?.(event, peerId, details)`, and what follows it. -/
def audited (calls : List ExecutorCall) (event : McpAuditEvent) (peerId details : String)
    (next : List ExecutorCall → ExecutorRun Body) : ExecutorRun Body :=
  match deps.audit with
  | none => next calls
  | some audit =>
      let calls := calls ++ [.audit event peerId details]
      if audit event peerId details then next calls else ⟨calls, .threw⟩

/-- A refusal with its audit entry. -/
def rejected (calls : List ExecutorCall) (peerId details : String) (status : Nat)
    (body : ExecutorBody) : ExecutorRun Body :=
  audited deps calls .forwardReject peerId details fun calls => ⟨calls, .response status body⟩

/-- The response of an injected function is passed on; a failure is audited as well. -/
def passOn (calls : List ExecutorCall) (peerId failed : String) (res : McpResponse Body) :
    ExecutorRun Body :=
  if 500 ≤ res.status then
    audited deps calls .forwardReject peerId (failed ++ toString res.status)
      fun calls => ⟨calls, .passed res⟩
  else ⟨calls, .passed res⟩

def executeLocal (ctx : McpForwardContext) (spec : McporterLocal) (auditPeer : String) :
    ExecutorRun Body :=
  match deps.localExec with
  | none =>
      rejected deps [] auditPeer (spec.server ++ " local-exec deferred") 501
        { error := "local-exec deferred (Q1: remote-forward-only)", server := spec.server }
  | some localExec =>
      audited deps [] .execLocal auditPeer (spec.server ++ " tier=" ++ spec.execution_tier.text)
        fun calls =>
          let request : McpLocalExecRequest :=
            { server := spec.server, argv := spec.argv, configPath := spec.configPath
              payload := ctx.payload, timeoutMs := spec.timeoutMs
              execution_tier := spec.execution_tier }
          let calls := calls ++ [ExecutorCall.localExec request]
          match localExec request with
          | none => ⟨calls, .pending⟩
          | some (.error message) =>
              rejected deps calls auditPeer (spec.server ++ " local-exec-threw") 502
                { error := "local-exec failed", server := spec.server, detail := some ⟨message, 300⟩ }
          | some (.ok res) => passOn deps calls auditPeer (spec.server ++ " local-exec-failed ") res

def executeForward (ctx : McpForwardContext) (spec : MtlsForward) : ExecutorRun Body :=
  if spec.targetAgentId = deps.selfAgentId then
    rejected deps [] spec.targetAgentId (ctx.server ++ " self-forward loop") 508
      { error := "self-forward loop blocked (1-hop-guard)", server := ctx.server }
  else if MAX_MCP_FORWARD_HOPS.le ctx.incomingHop then
    rejected deps [] spec.targetAgentId
      (ctx.server ++ " hop-limit " ++ String.ofList ctx.incomingHop.text) 502
      { error := "mcp 1-hop-guard: non-owner re-forward blocked", server := ctx.server
        hop := ctx.incomingHop }
  else
    audited deps [] .forwardTx spec.targetAgentId
      (ctx.server ++ " tier=" ++ spec.execution_tier.text) fun calls =>
        let request : McpHttpForwardRequest :=
          { url := spec.url
            hop := ctx.incomingHop.add (.ofInt 1)
            senderUri := spec.senderUri
            payload := ctx.payload
            targetAgentId := spec.targetAgentId
            requireServerIdentity := spec.requireServerIdentity
            expectedServerSpiffeId := spec.expectedServerSpiffeId
            timeoutMs := spec.timeoutMs }
        let calls := calls ++ [ExecutorCall.httpForward request]
        match deps.httpForward request with
        | none => ⟨calls, .pending⟩
        | some (.error _) => ⟨calls, .threw⟩
        | some (.ok res) =>
            passOn deps calls spec.targetAgentId (ctx.server ++ " forward-failed ") res

def execute (dispatch : RoutableDispatch) (ctx : McpForwardContext) : ExecutorRun Body :=
  let timeoutMs := deps.timeoutMs.getD DEFAULT_MCP_EXEC_TIMEOUT_MS
  let auditPeer :=
    match dispatch with
    | .remote request => request.targetAgentId
    | .local .. => deps.selfAgentId
  match buildMcpExecSpec (.routable dispatch) { authorized := some true, timeoutMs := timeoutMs } with
  | .reject status reason =>
      rejected deps [] auditPeer (ctx.server ++ " reject " ++ toString status) status
        { error := reason, server := ctx.server }
  | .mcporterLocal spec => executeLocal deps ctx spec auditPeer
  | .mtlsForward spec => executeForward deps ctx spec

end Executor

/-! ## What is sent -/

/-- The requests that the network is asked to send. -/
def forwardRequests (calls : List ExecutorCall) : List McpHttpForwardRequest :=
  calls.filterMap fun
    | .httpForward request => some request
    | _ => none

section Forwards

variable {Body : Type} {deps : McpForwardExecutorDeps Body} {calls : List ExecutorCall}
  {ctx : McpForwardContext}

theorem forwardRequests_append (calls calls' : List ExecutorCall) :
    forwardRequests (calls ++ calls') = forwardRequests calls ++ forwardRequests calls' :=
  List.filterMap_append

/-- An audit entry sends nothing, whether it is written or not. -/
theorem forwardRequests_audited {P : List McpHttpForwardRequest → Prop} {event : McpAuditEvent}
    {peerId details : String} {next : List ExecutorCall → ExecutorRun Body}
    (hstop : P (forwardRequests calls))
    (hnext : ∀ calls', forwardRequests calls' = forwardRequests calls →
      P (forwardRequests (next calls').calls)) :
    P (forwardRequests (audited deps calls event peerId details next).calls) := by
  unfold audited
  have hentry : forwardRequests (calls ++ [.audit event peerId details]) = forwardRequests calls := by
    rw [forwardRequests_append]
    exact List.append_nil _
  split
  · exact hnext calls rfl
  · dsimp only
    split
    · exact hnext _ hentry
    · rwa [hentry]

theorem forwardRequests_rejected (peerId details : String) (status : Nat) (body : ExecutorBody) :
    forwardRequests (rejected deps calls peerId details status body).calls =
      forwardRequests calls :=
  forwardRequests_audited (P := (· = forwardRequests calls)) rfl fun _ h => h

theorem forwardRequests_passOn (peerId failed : String) (res : McpResponse Body) :
    forwardRequests (passOn deps calls peerId failed res).calls = forwardRequests calls := by
  unfold passOn
  split
  · exact forwardRequests_audited (P := (· = forwardRequests calls)) rfl fun _ h => h
  · rfl

theorem forwardRequests_executeLocal (spec : McporterLocal) (auditPeer : String) :
    forwardRequests (executeLocal deps ctx spec auditPeer).calls = [] := by
  unfold executeLocal
  split
  · exact forwardRequests_rejected ..
  · rename_i localExec _
    refine forwardRequests_audited (P := (· = [])) rfl fun calls hcalls => ?_
    dsimp only
    generalize (⟨spec.server, spec.argv, spec.configPath, ctx.payload, spec.timeoutMs,
      spec.execution_tier⟩ : McpLocalExecRequest) = request
    have hcall : forwardRequests (calls ++ [.localExec request]) = [] := by
      rw [forwardRequests_append, hcalls]
      rfl
    split
    · exact hcall
    · rw [forwardRequests_rejected, hcall]
    · rw [forwardRequests_passOn, hcall]

/-- The guards of a forward, and the request that is sent behind them. -/
structure Forwarded (deps : McpForwardExecutorDeps Body) (ctx : McpForwardContext)
    (spec : MtlsForward) (forward : McpHttpForwardRequest) : Prop where
  target : spec.targetAgentId ≠ deps.selfAgentId
  hop : MAX_MCP_FORWARD_HOPS.le ctx.incomingHop = false
  request : forward =
    { url := spec.url, hop := ctx.incomingHop.add (.ofInt 1), senderUri := spec.senderUri
      payload := ctx.payload, targetAgentId := spec.targetAgentId
      requireServerIdentity := spec.requireServerIdentity
      expectedServerSpiffeId := spec.expectedServerSpiffeId, timeoutMs := spec.timeoutMs }

variable (deps ctx) in
theorem forwardRequests_executeForward (spec : MtlsForward) :
    forwardRequests (executeForward deps ctx spec).calls = [] ∨
      ∃ forward, forwardRequests (executeForward deps ctx spec).calls = [forward] ∧
        Forwarded deps ctx spec forward := by
  unfold executeForward
  split_ifs with htarget hhop
  · exact .inl (forwardRequests_rejected ..)
  · exact .inl (forwardRequests_rejected ..)
  · refine forwardRequests_audited
      (P := fun sent => sent = [] ∨ ∃ forward, sent = [forward] ∧ Forwarded deps ctx spec forward)
      (.inl rfl) fun calls hcalls => .inr ⟨_, ?_, htarget, Bool.eq_false_iff.mpr hhop, rfl⟩
    dsimp only
    generalize (⟨spec.url, ctx.incomingHop.add (.ofInt 1), spec.senderUri, ctx.payload,
      spec.targetAgentId, spec.requireServerIdentity, spec.expectedServerSpiffeId,
      spec.timeoutMs⟩ : McpHttpForwardRequest) = request
    have hcall : forwardRequests (calls ++ [.httpForward request]) = [request] := by
      rw [forwardRequests_append, hcalls]
      rfl
    split
    · exact hcall
    · exact hcall
    · rw [forwardRequests_passOn, hcall]

variable (deps ctx) in
/-- The executor sends nothing, or the request of a remote dispatch whose pin is consistent. -/
theorem forwardRequests_execute (dispatch : RoutableDispatch) :
    forwardRequests (execute deps dispatch ctx).calls = [] ∨
      ∃ spec forward, forwardRequests (execute deps dispatch ctx).calls = [forward] ∧
        buildMcpExecSpec (.routable dispatch)
          { authorized := some true
            timeoutMs := deps.timeoutMs.getD DEFAULT_MCP_EXEC_TIMEOUT_MS } = .mtlsForward spec ∧
        Forwarded deps ctx spec forward := by
  unfold execute
  dsimp only
  split
  · exact .inl (forwardRequests_rejected ..)
  · exact .inl (forwardRequests_executeLocal ..)
  · rename_i spec hspec
    rcases forwardRequests_executeForward deps ctx spec with
      hnone | ⟨forward, hsent, hforwarded⟩
    · exact .inl hnone
    · exact .inr ⟨spec, forward, hsent, hspec, hforwarded⟩

end Forwards

end ThinkLocal.Mcp
