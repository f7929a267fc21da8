import ThinkLocal.Js.ReadNumber
import ThinkLocal.Js.UriComponent
import ThinkLocal.Mcp.ForwardExecutor

/-!
# Forwarding to the owner

From a request at the ingress to what the executor of the same node sends: at most one request,
behind the gate of the ingress and the guards of the executor, for a request without a hop.
-/

namespace ThinkLocal.Mcp

open Js (Number parseInt decodeURIComponent pathFrom isComponentChar doubleDotSegments
  singleDotSegments)

/-! ## The hop count of a request -/

inductive HeaderValue
  | single (text : String)
  | many (texts : List String)

/-- The value of a header that is looked at. -/
def HeaderValue.first? : HeaderValue → Option String
  | single text => some text
  | many texts => texts.head?

def readIncomingHop (raw : Option HeaderValue) : Number :=
  let n :=
    match raw.bind HeaderValue.first? with
    | some val => parseInt val
    | none => .ofInt 0
  match n with
  | .finite value => if 0 < value then n else .ofInt 0
  | _ => .ofInt 0

/-- A hop count is 0 or forbids a forward. -/
theorem readIncomingHop_cases (raw : Option HeaderValue) :
    readIncomingHop raw = .ofInt 0 ∨ MAX_MCP_FORWARD_HOPS.le (readIncomingHop raw) = true := by
  unfold readIncomingHop
  cases raw.bind HeaderValue.first? with
  | none => exact .inl (if_neg (lt_irrefl _))
  | some val =>
      dsimp only
      split
      · rename_i value hvalue
        split_ifs with hpos
        · right
          have hone := Js.one_le_of_parseInt hvalue hpos
          rw [hvalue]
          rcases hone.lt_or_eq with hlt | rfl
          · simp [MAX_MCP_FORWARD_HOPS, Number.le, Number.ofInt, Number.lt, hlt]
          · decide
        · exact .inl rfl
      · exact .inl rfl

/-! ## Nodes -/

/-- The ingress and the executor of a node are given one identity. -/
structure ForwardNode (Body : Type) where
  ingress : McpIngressDeps
  executor : McpForwardExecutorDeps Body
  same_self : executor.selfAgentId = ingress.selfAgentId

structure ForwardRequest where
  input : McpIngressInput
  hop : Option HeaderValue

section Nodes

variable {Body : Type} (platform : Platform) (node : ForwardNode Body) (request : ForwardRequest)

/-- `makeMcpIngressHandler`: what `execute` is called with besides the dispatch. -/
def ForwardRequest.context : McpForwardContext where
  incomingHop := readIncomingHop request.hop
  payload := request.input.payload
  server := request.input.server

/-- What a node sends for a request. -/
def ForwardNode.sent : List McpHttpForwardRequest :=
  (executions (handleMcpIngress platform request.input node.ingress).calls).flatMap
    fun dispatch => forwardRequests (execute node.executor dispatch request.context).calls

end Nodes

/-! ## URLs -/

structure Url where
  protocol : String
  origin : String
  /-- The segments of the path. -/
  path : List String
  deriving DecidableEq

def slashed (segments : List String) : String := String.join (segments.map ("/" ++ ·))

/-- `new URL(text)`.  The origin of an `https` URL is parsed to itself, and a path behind it that
needs no escapes has its dot segments resolved. -/
structure ParsesUrls (platform : Platform) (parse : String → Option Url) : Prop where
  parseUrl : ∀ text, platform.parseUrl text = (parse text).map fun url => (url.protocol, url.origin)
  path : ∀ {text url}, parse text = some url → url.protocol = "https:" →
    ∀ segments, segments ≠ [] → (∀ s ∈ segments, ∀ c ∈ s.toList, isComponentChar c = true) →
      parse (url.origin ++ slashed segments) = some ⟨"https:", url.origin, pathFrom [] segments⟩

/-! ## The route of a forward -/

section Route

variable {platform : Platform} {server selfAgentId : String} {resolutions : List McpResolution}

/-- Every capability that serves the server is among the resolutions. -/
theorem resolveMcp_complete {toLowerCase : String → String} {capabilities : List Capability}
    (h : resolveMcp toLowerCase server capabilities = some resolutions) {cap : Capability}
    (hmem : cap ∈ capabilities) (hcategory : cap.category = MCP_CATEGORY)
    (hskill : cap.skill_id = skillId toLowerCase server) (hhealth : cap.health ≠ .offline) :
    ∃ r ∈ resolutions, r.agent_id = cap.agent_id ∧ r.skill_id = cap.skill_id ∧
      r.health = cap.health := by
  induction capabilities generalizing resolutions with
  | nil => cases hmem
  | cons first rest ih =>
      rw [resolveMcp] at h
      rcases List.mem_cons.mp hmem with rfl | hmem
      · rw [if_neg (by simp [hcategory, hskill, hhealth])] at h
        obtain ⟨tier, -, h⟩ := Option.bind_eq_some_iff.mp h
        obtain ⟨out, -, rfl⟩ := Option.map_eq_some_iff.mp h
        exact ⟨_, List.mem_cons_self, rfl, rfl, rfl⟩
      · split at h
        · exact ih h hmem
        · obtain ⟨tier, -, h⟩ := Option.bind_eq_some_iff.mp h
          obtain ⟨out, hout, rfl⟩ := Option.map_eq_some_iff.mp h
          obtain ⟨r, hr, hsame⟩ := ih hout hmem
          exact ⟨r, List.mem_cons_of_mem _ hr, hsame⟩

/-- A remote plan is for the server that was asked for, and no usable resolution is the node's
own. -/
theorem planMcpRoute_remote {s : String} {target : McpResolution}
    (h : planMcpRoute platform server resolutions selfAgentId = .remote s target) :
    s = server ∧ target ∈ resolutions ∧ target.agent_id ≠ selfAgentId ∧
      ∀ r ∈ resolutions, r.skill_id = skillId platform.toLowerCase server → r.health ≠ .offline →
        r.agent_id ≠ selfAgentId := by
  have hmem := (planMcpRoute_sound platform server selfAgentId resolutions).2 s target h
  unfold planMcpRoute at h
  dsimp only at h
  split at h
  · cases h
  · rename_i hown
    have hothers := List.find?_eq_none.mp hown
    split_ifs at h
    split at h
    · rename_i found hfound
      cases h
      have husable : target ∈ resolutions.filter fun r =>
          r.skill_id = skillId platform.toLowerCase server ∧ r.health ≠ .offline := by
        rcases Option.or_eq_some_iff.mp hfound with hfind | ⟨-, hhead⟩
        · exact List.mem_of_find?_eq_some hfind
        · exact List.mem_of_mem_head? hhead
      refine ⟨rfl, hmem, by simpa using hothers target husable, fun r hr hskill hhealth => ?_⟩
      have husable' : r ∈ resolutions.filter fun r =>
          r.skill_id = skillId platform.toLowerCase server ∧ r.health ≠ .offline :=
        List.mem_filter.mpr ⟨hr, by simpa using ⟨hskill, hhealth⟩⟩
      simpa using hothers r husable'
    · cases h

/-- What the request of a remote dispatch is built from. -/
structure RemoteRoute (platform : Platform) (input : McpIngressInput) (deps : McpIngressDeps)
    (request : McpForwardRequestPlan) (resolutions : List McpResolution) (target : McpResolution)
    (endpoint origin : String) : Prop where
  resolved : resolveMcp platform.toLowerCase input.server input.capabilities = some resolutions
  planned : planMcpRoute platform input.server resolutions deps.selfAgentId =
    .remote input.server target
  peer : deps.resolvePeer target.agent_id = .peer endpoint
  https : platform.parseUrl endpoint = some ("https:", origin)
  targetAgentId : request.targetAgentId = target.agent_id
  execution_tier : request.execution_tier = target.execution_tier
  url : request.url = origin ++ "/api/mcp/" ++ platform.encodeURIComponent input.server
  pinned : request.outboundPolicy.spiffeServerIdentity = deps.requireServerIdentity
  expected : request.expectedSpiffeId =
    if deps.requireServerIdentity then some target.agent_id else none

theorem remoteRoute_of_route {input : McpIngressInput} {deps : McpIngressDeps}
    {request : McpForwardRequestPlan}
    (h : route platform input deps = some (.routable (.remote request))) :
    ∃ resolutions target endpoint origin,
      RemoteRoute platform input deps request resolutions target endpoint origin := by
  obtain ⟨resolutions, hresolve, h⟩ := Option.bind_eq_some_iff.mp h
  obtain ⟨spec, hspec, hdispatch⟩ := Option.map_eq_some_iff.mp h
  cases hplan : planMcpRoute platform input.server resolutions deps.selfAgentId with
  | none server reason =>
      rw [hplan] at hspec
      cases hspec
      cases hdispatch
  | «local» server tier =>
      rw [hplan] at hspec
      cases hspec
      cases hdispatch
  | remote server target =>
      obtain ⟨rfl, -⟩ := planMcpRoute_remote hplan
      rw [hplan, buildMcpForwardSpec] at hspec
      -- every exit but the last is `unavailable`
      split_ifs at hspec
      · cases hspec
        cases hdispatch
      · split at hspec
        · cases hspec
        · cases hspec
          cases hdispatch
        · rename_i endpoint hpeer
          split_ifs at hspec
          · cases hspec
            cases hdispatch
          · split at hspec
            · cases hspec
              cases hdispatch
            · rename_i protocol origin hparse
              split_ifs at hspec with hprotocol
              · cases hspec
                cases hdispatch
              · cases hspec
                cases hdispatch
                obtain rfl := not_not.mp hprotocol
                exact ⟨resolutions, target, endpoint, origin, hresolve, hplan, hpeer, hparse,
                  rfl, rfl, rfl, rfl, rfl⟩

end Route

/-! ## What a node sends -/

section Sent

variable {Body : Type} {platform : Platform} {node : ForwardNode Body} {request : ForwardRequest}
  {forward : McpHttpForwardRequest}

/-- A request that is sent has passed the gate of the ingress and the guards of the executor. -/
structure SentFor (platform : Platform) (node : ForwardNode Body) (request : ForwardRequest)
    (forward : McpHttpForwardRequest) (before : List IngressCall) (tier : McpExecutionTier)
    (req : McpForwardRequestPlan) (spec : MtlsForward) : Prop where
  calls : (handleMcpIngress platform request.input node.ingress).calls =
    before ++ [.execute (.remote req)]
  admitted : Admitted platform request.input node.ingress before (.remote req) tier
  specified : ForwardSpecOf req spec
  forwarded : Forwarded node.executor request.context spec forward

theorem sentFor_of_sent (h : forward ∈ node.sent platform request) :
    ∃ before tier req spec, SentFor platform node request forward before tier req spec := by
  obtain ⟨dispatch, hdispatch, hforward⟩ := List.mem_flatMap.mp h
  obtain ⟨before, tier, hcalls, hadmitted⟩ :=
    (ingress_gate_sound platform request.input node.ingress).2 dispatch hdispatch
  rcases forwardRequests_execute node.executor request.context dispatch with
    hnone | ⟨spec, sent, hsent, hspec, hforwarded⟩
  · rw [hnone] at hforward
    cases hforward
  · rw [hsent] at hforward
    obtain rfl := List.mem_singleton.mp hforward
    obtain ⟨req, rfl, hreq⟩ := buildMcpExecSpec_forward hspec
    exact ⟨before, tier, req, spec, hcalls, hadmitted, hreq, hforwarded⟩

/-- Only a request without a hop is sent on. -/
theorem hop_of_sent (h : forward ∈ node.sent platform request) :
    readIncomingHop request.hop = .ofInt 0 := by
  obtain ⟨_, _, _, _, hsent⟩ := sentFor_of_sent h
  refine (readIncomingHop_cases request.hop).resolve_right fun hlimit => ?_
  have hhop : MAX_MCP_FORWARD_HOPS.le (readIncomingHop request.hop) = false := hsent.forwarded.hop
  rw [hlimit] at hhop
  cases hhop

/-- What is sent carries one hop. -/
theorem forward_hop (h : forward ∈ node.sent platform request) : forward.hop = .ofInt 1 := by
  have hzero := hop_of_sent h
  obtain ⟨_, _, _, _, hsent⟩ := sentFor_of_sent h
  rw [hsent.forwarded.request]
  change (readIncomingHop request.hop).add (.ofInt 1) = .ofInt 1
  rw [hzero]
  decide +kernel

variable (platform node request) in
theorem length_sent_le : (node.sent platform request).length ≤ 1 := by
  have hone := (ingress_gate_sound platform request.input node.ingress).1
  unfold ForwardNode.sent
  generalize executions (handleMcpIngress platform request.input node.ingress).calls = dispatches
    at hone
  match dispatches, hone with
  | [], _ => exact Nat.zero_le _
  | [dispatch], _ =>
      rw [List.flatMap_singleton]
      rcases forwardRequests_execute node.executor request.context dispatch with
        hnone | ⟨spec, sent, hsent, -⟩
      · rw [hnone]
        exact Nat.zero_le _
      · rw [hsent]
        exact le_rfl

end Sent

end ThinkLocal.Mcp
