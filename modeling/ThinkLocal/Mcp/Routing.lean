import ThinkLocal.Mcp.ServiceRegistry

/-!
# The route of an MCP call

`mcp-routing.ts`, `mcp-forward.ts` and `mcp-forward-dispatch.ts`: from the providers
of a server to the request that the executor is handed.  Parsing a URL and encoding
a path component are parameters.
-/

namespace ThinkLocal.Mcp

open Js (trim)

/-- The functions on texts that the platform provides. -/
structure Platform where
  toLowerCase : String → String
  /-- `new URL(text)`: the protocol and the origin, `none` for an invalid text. -/
  parseUrl : String → Option (String × String)
  encodeURIComponent : String → String

/-! ## The plan -/

inductive McpRoutePlan
  | local (server : String) (execution_tier : McpExecutionTier)
  | remote (server : String) (target : McpResolution)
  | none (server reason : String)

def planMcpRoute (platform : Platform) (server : String) (resolutions : List McpResolution)
    (selfAgentId : String) : McpRoutePlan :=
  let expectedSkillId := skillId platform.toLowerCase server
  let usable := resolutions.filter fun r => r.skill_id = expectedSkillId ∧ r.health ≠ .offline
  match usable.find? fun r => r.agent_id = selfAgentId with
  | some own => .local server own.execution_tier
  | none =>
      if usable = [] then
        .none server <|
          if resolutions.any fun r => r.skill_id = expectedSkillId then
            "kein nutzbarer Provider (alle offline)"
          else "kein Provider registriert"
      else
        match (usable.find? fun r => r.health = .healthy).or usable.head? with
        | some target => .remote server target
        | none => .none server "kein nutzbarer Provider"

/-! ## The specification of the forward -/

structure RemoteForward where
  server : String
  targetAgentId : String
  url : String
  senderUri : String
  execution_tier : McpExecutionTier
  requireServerIdentity : Bool
  expectedServerSpiffeId : String

inductive McpForwardSpec
  | localExec (server : String) (execution_tier : McpExecutionTier)
  | remoteForward (spec : RemoteForward)
  | unavailable (server reason : String)

/-- What `resolvePeer` gives: it throws or returns a value that cannot be used as a peer,
it returns nothing or a peer without an endpoint, or it returns a peer with an endpoint. -/
inductive PeerLookup
  | threw
  | missing
  | peer (endpoint : String)

/-- `none` is an exception. -/
def buildMcpForwardSpec (platform : Platform) (plan : McpRoutePlan) (selfSenderUri : String)
    (resolvePeer : String → PeerLookup) (requireServerIdentity : Bool) : Option McpForwardSpec :=
  match plan with
  | .none server reason => some (.unavailable server reason)
  | .local server execution_tier => some (.localExec server execution_tier)
  | .remote server target =>
      let targetAgentId := target.agent_id
      let noEndpoint := McpForwardSpec.unavailable server
        ("kein Endpoint für Provider " ++ targetAgentId ++ " (nicht verbunden/unbekannt)")
      if trim selfSenderUri = "" then
        some (.unavailable server "keine eigene Sender-Identität für Forward")
      else
        match resolvePeer targetAgentId with
        | .threw => none
        | .missing => some noEndpoint
        | .peer endpoint =>
            if trim endpoint = "" then some noEndpoint
            else
              match platform.parseUrl endpoint with
              | none =>
                  some (.unavailable server
                    ("ungültiger Endpoint für " ++ targetAgentId ++ ": '" ++ endpoint ++ "'"))
              | some (protocol, origin) =>
                  if protocol ≠ "https:" then
                    some (.unavailable server
                      ("nicht-HTTPS-Endpoint für " ++ targetAgentId ++ " (" ++ protocol ++
                        ") — Forward nur über mTLS"))
                  else
                    some (.remoteForward
                      { server := server
                        targetAgentId := targetAgentId
                        url := origin ++ "/api/mcp/" ++ platform.encodeURIComponent server
                        senderUri := selfSenderUri
                        execution_tier := target.execution_tier
                        requireServerIdentity := requireServerIdentity
                        expectedServerSpiffeId := targetAgentId })

/-! ## The dispatch -/

structure OutboundConnectPolicy where
  debug : Bool
  disablePinning : Bool
  spiffeServerIdentity : Bool

structure McpForwardRequestPlan where
  url : String
  method : String
  targetAgentId : String
  senderUri : String
  execution_tier : McpExecutionTier
  outboundPolicy : OutboundConnectPolicy
  /-- `serverIdentityPolicy.expectedSpiffeId`. -/
  expectedSpiffeId : Option String

/-- A dispatch that can be executed. -/
inductive RoutableDispatch
  | remote (request : McpForwardRequestPlan)
  | local (server : String) (execution_tier : McpExecutionTier)

inductive McpForwardDispatch
  | routable (dispatch : RoutableDispatch)
  | none (server reason : String)

/-- The tier of the capability that the dispatch goes to. -/
def RoutableDispatch.capabilityTier : RoutableDispatch → McpExecutionTier
  | .local _ execution_tier => execution_tier
  | .remote request => request.execution_tier

/-- `buildMcpForwardDispatch` without options. -/
def buildMcpForwardDispatch : McpForwardSpec → McpForwardDispatch
  | .unavailable server reason => .none server reason
  | .localExec server execution_tier => .routable (.local server execution_tier)
  | .remoteForward spec =>
      .routable (.remote
        { url := spec.url
          method := "POST"
          targetAgentId := spec.targetAgentId
          senderUri := spec.senderUri
          execution_tier := spec.execution_tier
          outboundPolicy :=
            { debug := false, disablePinning := false
              spiffeServerIdentity := spec.requireServerIdentity }
          expectedSpiffeId :=
            if spec.requireServerIdentity then some spec.expectedServerSpiffeId else none })

/-! ## Where the tier of a dispatch comes from -/

variable {platform : Platform} {server : String}

/-- Every resolution stands for a capability of the list. -/
theorem resolveMcp_sound {toLowerCase : String → String} {capabilities : List Capability}
    {resolutions : List McpResolution}
    (h : resolveMcp toLowerCase server capabilities = some resolutions)
    {r : McpResolution} (hr : r ∈ resolutions) :
    ∃ cap ∈ capabilities, cap.category = MCP_CATEGORY ∧
      cap.skill_id = skillId toLowerCase server ∧ cap.health ≠ .offline ∧
      cap.agent_id = r.agent_id ∧
      deriveExecutionTier toLowerCase cap.permissions cap.trust_level = some r.execution_tier := by
  induction capabilities generalizing resolutions with
  | nil =>
      obtain rfl := Option.some.inj h
      cases hr
  | cons cap rest ih =>
      rw [resolveMcp] at h
      split at h
      · obtain ⟨cap', hmem, hcap'⟩ := ih h hr
        exact ⟨cap', List.mem_cons_of_mem _ hmem, hcap'⟩
      · rename_i hserves
        obtain ⟨tier, htier, h⟩ := Option.bind_eq_some_iff.mp h
        obtain ⟨out, hout, rfl⟩ := Option.map_eq_some_iff.mp h
        rcases List.mem_cons.mp hr with rfl | hr
        · push Not at hserves
          exact ⟨cap, List.mem_cons_self, hserves.1, hserves.2.1, hserves.2.2, rfl, htier⟩
        · obtain ⟨cap', hmem, hcap'⟩ := ih hout hr
          exact ⟨cap', List.mem_cons_of_mem _ hmem, hcap'⟩

/-- A plan that serves the call names one of the resolutions. -/
theorem planMcpRoute_sound (platform : Platform) (server selfAgentId : String)
    (resolutions : List McpResolution) :
    (∀ s tier, planMcpRoute platform server resolutions selfAgentId = .local s tier →
      ∃ r ∈ resolutions, r.agent_id = selfAgentId ∧ r.execution_tier = tier) ∧
    (∀ s target, planMcpRoute platform server resolutions selfAgentId = .remote s target →
      target ∈ resolutions) := by
  unfold planMcpRoute
  dsimp only
  split
  · rename_i own hown
    have hmem := List.mem_of_mem_filter (List.mem_of_find?_eq_some hown)
    have hself := List.find?_some hown
    constructor
    · rintro s tier h
      cases h
      exact ⟨own, hmem, of_decide_eq_true hself, rfl⟩
    · rintro s target h
      cases h
  · split
    · exact ⟨fun _ _ h => (by cases h), fun _ _ h => (by cases h)⟩
    · split
      · rename_i target htarget
        refine ⟨fun _ _ h => (by cases h), fun s target' h => ?_⟩
        cases h
        rcases Option.or_eq_some_iff.mp htarget with hfind | ⟨-, hhead⟩
        · exact List.mem_of_mem_filter (List.mem_of_find?_eq_some hfind)
        · exact List.mem_of_mem_filter (List.mem_of_mem_head? hhead)
      · exact ⟨fun _ _ h => (by cases h), fun _ _ h => (by cases h)⟩

/-- A routable dispatch keeps the tier of its plan. -/
theorem capabilityTier_of_plan {plan : McpRoutePlan} {selfSenderUri : String}
    {resolvePeer : String → PeerLookup} {requireServerIdentity : Bool} {spec : McpForwardSpec}
    {dispatch : RoutableDispatch}
    (hspec : buildMcpForwardSpec platform plan selfSenderUri resolvePeer requireServerIdentity =
      some spec)
    (hdispatch : buildMcpForwardDispatch spec = .routable dispatch) :
    (∃ s, plan = .local s dispatch.capabilityTier) ∨
      ∃ s target, plan = .remote s target ∧ target.execution_tier = dispatch.capabilityTier := by
  cases plan with
  | none server reason =>
      cases hspec
      cases hdispatch
  | «local» server tier =>
      cases hspec
      cases hdispatch
      exact .inl ⟨server, rfl⟩
  | remote server target =>
      refine .inr ⟨server, target, rfl, ?_⟩
      unfold buildMcpForwardSpec at hspec
      dsimp only at hspec
      -- Every exit but the last is `unavailable`.
      repeat' split at hspec
      all_goals cases hspec
      all_goals cases hdispatch
      rfl

end ThinkLocal.Mcp
