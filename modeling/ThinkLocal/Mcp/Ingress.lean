import ThinkLocal.Foundation.Except
import ThinkLocal.Approval.Meldekanal
import ThinkLocal.Mcp.Routing

/-!
# The MCP ingress

`handleMcpIngress` of `mcp-ingress.ts`, with the calls of its injected functions in
their order.  The functions are not trusted: `isAuthorizedSender` and `resolvePeer`
may throw, `resolveApproval` may throw, reject, never settle or give any value.

The executor is called last.  A call of it goes back to an authorised sender, to a
route and to a tier that is `self`, or `gate` with an approval for this very call.
-/

namespace ThinkLocal.Mcp

open Js Approval Foundation.Except

/-! ## The handler -/

structure McpIngressInput where
  server : String
  senderUri : Option String
  capabilities : List Capability
  payload : Option Registry.Json

structure ApprovalContext where
  server : String
  tool : String
  tier : McpExecutionTier
  senderUri : String
  deriving DecidableEq, Repr

structure McpIngressDeps where
  selfAgentId : String
  resolvePeer : String → PeerLookup
  /-- The truth value of the result, `none` for an exception. -/
  isAuthorizedSender : String → Option Bool
  requireServerIdentity : Bool
  /-- How the awaited result settles, if it does. -/
  resolveApproval : Option (ApprovalContext → Option Settled)

inductive IngressCall
  | isAuthorizedSender (senderUri : String)
  | resolveApproval (ctx : ApprovalContext)
  | execute (dispatch : RoutableDispatch)

structure IngressBody where
  error : String
  server : Option String := none
  tier : Option McpExecutionTier := none
  outcome : Option JsValue := none
  reason : Option String := none

structure McpIngressResponse where
  status : Nat
  body : IngressBody

inductive IngressResult
  | response (response : McpIngressResponse)
  /-- What the executor returns. -/
  | executed
  | threw
  /-- The approval never settles. -/
  | pending

structure IngressRun where
  calls : List IngressCall
  result : IngressResult

/-- A run that answers without a further call. -/
def IngressRun.answer (calls : List IngressCall) (status : Nat) (body : IngressBody) : IngressRun :=
  ⟨calls, .response ⟨status, body⟩⟩

def enforceExecutionTier (tier : McpExecutionTier) (server : String) : Option McpIngressResponse :=
  match tier with
  | .self => none
  | .gate =>
      some ⟨403,
        { error := "write-tier tool requires operator approval; approval channel not configured " ++
            "(Beta remote-forward-only)"
          server := server, tier := tier }⟩
  | .consensus =>
      some ⟨403,
        { error := "critical-tier tool denied in Beta (requires consensus approval)"
          server := server, tier := tier }⟩

/-- The route of a call; `none` is an exception. -/
def route (platform : Platform) (input : McpIngressInput) (deps : McpIngressDeps) :
    Option McpForwardDispatch :=
  (resolveMcp platform.toLowerCase input.server input.capabilities).bind fun resolutions =>
    let plan := planMcpRoute platform input.server resolutions deps.selfAgentId
    (buildMcpForwardSpec platform plan deps.selfAgentId deps.resolvePeer
      deps.requireServerIdentity).map buildMcpForwardDispatch

/-- The refusal for an approval that cannot be had. -/
def resolverFailed (server : String) (tier : McpExecutionTier) : IngressBody :=
  { error := "approval resolver failed (fail-closed)", server := server, tier := tier }

/-- The gate with a resolver. -/
def askApproval (calls : List IngressCall) (ctx : ApprovalContext) (dispatch : RoutableDispatch)
    (awaited : Option Settled) : IngressRun :=
  match awaited with
  | none => ⟨calls, .pending⟩
  | some (.rejected _) => .answer calls 403 (resolverFailed ctx.server ctx.tier)
  | some (.fulfilled decision) =>
      match isApproved decision with
      | .error _ => .answer calls 403 (resolverFailed ctx.server ctx.tier)
      | .ok true => ⟨calls ++ [.execute dispatch], .executed⟩
      | .ok false =>
          -- The refusal reads the outcome again, still inside the `try`.
          match decision.get "outcome" 1 with
          | .error _ => .answer calls 403 (resolverFailed ctx.server ctx.tier)
          | .ok outcome =>
              .answer calls 403
                { error := "write-tier tool not approved", server := ctx.server, tier := ctx.tier
                  outcome := outcome }

/-- The handler from the dispatch on. -/
def enforceTier (calls : List IngressCall) (input : McpIngressInput) (deps : McpIngressDeps)
    (senderUri : String) (dispatch : RoutableDispatch) (tier : McpExecutionTier) : IngressRun :=
  match tier, deps.resolveApproval with
  | .gate, some resolveApproval =>
      let ctx : ApprovalContext :=
        { server := input.server, tool := deriveToolName input.payload, tier := tier
          senderUri := senderUri }
      askApproval (calls ++ [.resolveApproval ctx]) ctx dispatch (resolveApproval ctx)
  | tier, _ =>
      match enforceExecutionTier tier input.server with
      | some denied => ⟨calls, .response denied⟩
      | none => ⟨calls ++ [.execute dispatch], .executed⟩

/-- The handler after the authorisation of the sender. -/
def handleAuthorized (platform : Platform) (calls : List IngressCall) (input : McpIngressInput)
    (deps : McpIngressDeps) (senderUri : String) : IngressRun :=
  if trim input.server = "" then .answer calls 400 { error := "missing server" }
  else
    match route platform input deps with
    | none =>
        .answer calls 500 { error := "internal routing error", server := input.server }
    | some (.none _ reason) =>
        .answer calls 503
          { error := "mcp unavailable", server := input.server, reason := reason }
    | some (.routable dispatch) =>
        match deriveToolTierForServer platform.toLowerCase input.server input.payload with
        | none => ⟨calls, .threw⟩
        | some toolTier =>
            enforceTier calls input deps senderUri dispatch
              (maxTier dispatch.capabilityTier toolTier)

def handleMcpIngress (platform : Platform) (input : McpIngressInput) (deps : McpIngressDeps) :
    IngressRun :=
  let refused : IngressBody := { error := "sender not authorized", server := input.server }
  match input.senderUri with
  | none => .answer [] 403 refused
  | some senderUri =>
      if trim senderUri = "" then .answer [] 403 refused
      else
        let calls := [.isAuthorizedSender senderUri]
        match deps.isAuthorizedSender senderUri with
        | none => ⟨calls, .threw⟩
        | some false => .answer calls 403 refused
        | some true => handleAuthorized platform calls input deps senderUri

/-! ## Which calls reach the executor -/

variable {platform : Platform} {input : McpIngressInput} {deps : McpIngressDeps}
  {calls : List IngressCall} {senderUri : String} {dispatch : RoutableDispatch}
  {tier : McpExecutionTier} {ctx : ApprovalContext}

/-- The capability tier of a route is derived from a capability that serves the server. -/
structure Serves (platform : Platform) (input : McpIngressInput) (tier : McpExecutionTier)
    (cap : Capability) : Prop where
  mem : cap ∈ input.capabilities
  category : cap.category = MCP_CATEGORY
  skill_id : cap.skill_id = skillId platform.toLowerCase input.server
  health : cap.health ≠ .offline
  derived : deriveExecutionTier platform.toLowerCase cap.permissions cap.trust_level = some tier

theorem route_serves (h : route platform input deps = some (.routable dispatch)) :
    ∃ cap, Serves platform input dispatch.capabilityTier cap := by
  obtain ⟨resolutions, hresolve, h⟩ := Option.bind_eq_some_iff.mp h
  obtain ⟨spec, hspec, hdispatch⟩ := Option.map_eq_some_iff.mp h
  have hres : ∃ r ∈ resolutions, r.execution_tier = dispatch.capabilityTier := by
    obtain ⟨hlocal, hremote⟩ :=
      planMcpRoute_sound platform input.server deps.selfAgentId resolutions
    rcases capabilityTier_of_plan hspec hdispatch with ⟨s, hplan⟩ | ⟨s, target, hplan, htier⟩
    · obtain ⟨r, hr, -, htier⟩ := hlocal s _ hplan
      exact ⟨r, hr, htier⟩
    · exact ⟨target, hremote s target hplan, htier⟩
  obtain ⟨r, hr, htier⟩ := hres
  obtain ⟨cap, hmem, hcategory, hskill, hhealth, -, hderived⟩ := resolveMcp_sound hresolve hr
  exact ⟨cap, hmem, hcategory, hskill, hhealth, by rw [hderived, htier]⟩

/-- The dispatches that the executor is called with. -/
def executions (calls : List IngressCall) : List RoutableDispatch :=
  calls.filterMap fun
    | .execute dispatch => some dispatch
    | _ => none

theorem executions_append (calls calls' : List IngressCall) :
    executions (calls ++ calls') = executions calls ++ executions calls' :=
  List.filterMap_append

/-- A tier may be executed: it is `self`, or `gate` and the call was approved. -/
def TierAdmits (input : McpIngressInput) (deps : McpIngressDeps) (before : List IngressCall)
    (senderUri : String) (tier : McpExecutionTier) : Prop :=
  tier = .self ∨
    tier = .gate ∧ ∃ resolveApproval ctx decision,
      deps.resolveApproval = some resolveApproval ∧
      ctx = ⟨input.server, deriveToolName input.payload, tier, senderUri⟩ ∧
      .resolveApproval ctx ∈ before ∧ resolveApproval ctx = some (.fulfilled decision) ∧
      isApproved decision = .ok true

/-- A run from given calls on executes nothing, or the dispatch as its last call. -/
def ExecutesLast (run : IngressRun) (dispatch : RoutableDispatch)
    (admitted : List IngressCall → Prop) : Prop :=
  executions run.calls = [] ∨
    ∃ before, run.calls = before ++ [.execute dispatch] ∧ executions before = [] ∧ admitted before

theorem askApproval_executes (hcalls : executions calls = []) (awaited : Option Settled) :
    ExecutesLast (askApproval calls ctx dispatch awaited) dispatch fun before =>
      before = calls ∧ ∃ decision, awaited = some (.fulfilled decision) ∧
        isApproved decision = .ok true := by
  rcases awaited with - | decision | error
  · exact .inl hcalls
  · rw [askApproval]
    rcases happroved : isApproved decision with error | - | -
    · exact .inl hcalls
    · dsimp only
      cases decision.get "outcome" 1 <;> exact .inl hcalls
    · exact .inr ⟨calls, rfl, hcalls, rfl, decision, rfl, happroved⟩
  · exact .inl hcalls

theorem enforceTier_executes (hcalls : executions calls = []) (tier : McpExecutionTier) :
    ExecutesLast (enforceTier calls input deps senderUri dispatch tier) dispatch fun before =>
      TierAdmits input deps before senderUri tier := by
  unfold enforceTier
  cases tier with
  | self => exact .inr ⟨calls, rfl, hcalls, .inl rfl⟩
  | consensus => exact .inl hcalls
  | gate =>
      cases hresolver : deps.resolveApproval with
      | none => exact .inl hcalls
      | some resolveApproval =>
          dsimp only
          generalize hctx : (⟨input.server, deriveToolName input.payload, .gate, senderUri⟩ :
            ApprovalContext) = ctx
          have hasked : executions (calls ++ [.resolveApproval ctx]) = [] := by
            rw [executions_append, hcalls]
            rfl
          rcases askApproval_executes hasked (resolveApproval ctx) with hnone |
            ⟨before, hrun, hbefore, rfl, decision, hdecision, happroved⟩
          · exact .inl hnone
          · refine .inr ⟨_, hrun, hbefore, .inr ⟨rfl, resolveApproval, ctx, decision, hresolver,
              hctx.symm, ?_, hdecision, happroved⟩⟩
            exact List.mem_append_right _ (List.mem_singleton_self _)

/-- What the code checks before it calls the executor. -/
structure Admitted (platform : Platform) (input : McpIngressInput) (deps : McpIngressDeps)
    (before : List IngressCall) (dispatch : RoutableDispatch) (tier : McpExecutionTier) :
    Prop where
  routable : route platform input deps = some (.routable dispatch)
  served : ∃ cap, Serves platform input dispatch.capabilityTier cap
  capability_le : dispatch.capabilityTier ≤ tier
  /-- The effective tier is that of the capability or that of the tool, and at least both. -/
  tool_le : ∃ toolTier,
    deriveToolTierForServer platform.toLowerCase input.server input.payload = some toolTier ∧
      tier = maxTier dispatch.capabilityTier toolTier ∧ toolTier ≤ tier
  not_consensus : tier ≠ .consensus
  sender : ∃ senderUri, input.senderUri = some senderUri ∧
    deps.isAuthorizedSender senderUri = some true ∧ TierAdmits input deps before senderUri tier

theorem TierAdmits.not_consensus {before : List IngressCall}
    (h : TierAdmits input deps before senderUri tier) : tier ≠ .consensus := by
  rcases h with rfl | ⟨rfl, -⟩
  · decide
  · decide

theorem handleAuthorized_executes (hcalls : executions calls = [])
    (hsender : input.senderUri = some senderUri)
    (hauthorized : deps.isAuthorizedSender senderUri = some true) :
    executions (handleAuthorized platform calls input deps senderUri).calls = [] ∨
      ∃ before dispatch tier,
        (handleAuthorized platform calls input deps senderUri).calls =
          before ++ [.execute dispatch] ∧
        executions before = [] ∧ Admitted platform input deps before dispatch tier := by
  unfold handleAuthorized
  split
  · exact .inl hcalls
  · rcases hroute : route platform input deps with - | dispatch | ⟨server, reason⟩
    · exact .inl hcalls
    · dsimp only
      cases htool : deriveToolTierForServer platform.toLowerCase input.server input.payload with
      | none => exact .inl hcalls
      | some toolTier =>
          dsimp only
          rcases enforceTier_executes hcalls (maxTier dispatch.capabilityTier toolTier)
            with hnone | ⟨before, hrun, hbefore, hadmits⟩
          · exact .inl hnone
          · refine .inr ⟨before, dispatch, maxTier dispatch.capabilityTier toolTier, hrun, hbefore,
              hroute, route_serves hroute, ?_, ⟨toolTier, htool, rfl, ?_⟩,
              hadmits.not_consensus, senderUri, hsender, hauthorized, hadmits⟩
            · rw [maxTier_eq_max]
              exact le_max_left _ _
            · rw [maxTier_eq_max]
              exact le_max_right _ _
    · exact .inl hcalls

/-- The gate of the ingress is sound: the executor is called at most once, as the last call, and
only for an authorised sender, a route and a tier that needs no approval or was approved for
this server, this tool and this sender. -/
theorem ingress_gate_sound (platform : Platform) (input : McpIngressInput) (deps : McpIngressDeps) :
    (executions (handleMcpIngress platform input deps).calls).length ≤ 1 ∧
    ∀ dispatch ∈ executions (handleMcpIngress platform input deps).calls,
      ∃ before tier,
        (handleMcpIngress platform input deps).calls = before ++ [.execute dispatch] ∧
        Admitted platform input deps before dispatch tier := by
  -- Nothing is executed, or one dispatch is.
  have hcases : executions (handleMcpIngress platform input deps).calls = [] ∨
      ∃ before dispatch tier,
        (handleMcpIngress platform input deps).calls = before ++ [.execute dispatch] ∧
        executions before = [] ∧ Admitted platform input deps before dispatch tier := by
    unfold handleMcpIngress
    cases hsender : input.senderUri with
    | none => exact .inl rfl
    | some senderUri =>
        dsimp only
        split
        · exact .inl rfl
        · rcases hauthorized : deps.isAuthorizedSender senderUri with - | - | -
          · exact .inl rfl
          · exact .inl rfl
          · exact handleAuthorized_executes rfl hsender hauthorized
  rcases hcases with hnone | ⟨before, dispatch, tier, hrun, hbefore, hadmitted⟩
  · rw [hnone]
    exact ⟨Nat.zero_le _, fun _ h => by cases h⟩
  · have hexecuted : executions (handleMcpIngress platform input deps).calls = [dispatch] := by
      rw [hrun, executions_append, hbefore]
      rfl
    rw [hexecuted]
    refine ⟨le_rfl, fun d hd => ?_⟩
    obtain rfl := List.mem_singleton.mp hd
    exact ⟨before, tier, hrun, hadmitted⟩

end ThinkLocal.Mcp
