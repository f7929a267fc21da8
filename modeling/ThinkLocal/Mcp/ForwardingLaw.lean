import ThinkLocal.Mcp.HopNetwork

/-!
# What a forward keeps

A forwarded request goes to the owner of a capability that serves the server, under the pin of
that owner, and to the URL of its endpoint.  The server is the last segment of the path unless it
is `.` or `..`: `encodeURIComponent` leaves points as they are, and the parser of the URL then
takes the segment for a relative one.
-/

namespace ThinkLocal.Mcp

open Foundation

open Js (Number encodeURIComponent decodeURIComponent pathFrom doubleDotSegments singleDotSegments)

/-! ## The path -/

theorem url_eq_slashed (origin component : String) :
    origin ++ "/api/mcp/" ++ component = origin ++ slashed ["api", "mcp", component] := by
  apply String.toList_injective
  simp [slashed, String.join]

theorem pathFrom_component {component : String} (hsingle : component ∉ singleDotSegments)
    (hdouble : component ∉ doubleDotSegments) :
    pathFrom [] ["api", "mcp", component] = ["api", "mcp", component] := by
  have hapi : "api" ∉ doubleDotSegments ∧ "api" ∉ singleDotSegments := by decide
  have hmcp : "mcp" ∉ doubleDotSegments ∧ "mcp" ∉ singleDotSegments := by decide
  simp [pathFrom, hapi, hmcp, hsingle, hdouble]

/-- A relative segment takes the server from the end of the path. -/
theorem pathFrom_dots {server last : String} (hdots : server = "." ∨ server = "..")
    (h : pathFrom [] ["api", "mcp", encodeURIComponent server] = ["api", "mcp", last]) :
    decodeURIComponent last ≠ some server := by
  rcases hdots with rfl | rfl
  · have hdot : pathFrom [] ["api", "mcp", encodeURIComponent "."] = ["api", "mcp", ""] := by
      decide +kernel
    rw [hdot] at h
    obtain rfl : "" = last := by simpa using h
    decide +kernel
  · have hdotdot : pathFrom [] ["api", "mcp", encodeURIComponent ".."] = ["api", ""] := by
      decide +kernel
    rw [hdotdot] at h
    simp at h

/-! ## The forward -/

section Law

variable {Body : Type} {platform : Platform} {parse : String → Option Url} {node : ForwardNode Body}
  {request : ForwardRequest} {forward : McpHttpForwardRequest}

/-- The whole promise of a forward.  The capability of the owner is the one whose tier entered the
gate. -/
structure ForwardsToOwner (platform : Platform) (parse : String → Option Url)
    (node : ForwardNode Body) (request : ForwardRequest) (forward : McpHttpForwardRequest) :
    Prop where
  owner : ∃ before dispatch tier cap,
    (handleMcpIngress platform request.input node.ingress).calls = before ++ [.execute dispatch] ∧
      Admitted platform request.input node.ingress before dispatch tier ∧
      Serves platform request.input dispatch.capabilityTier cap ∧
      cap.agent_id = forward.targetAgentId
  not_own : ∀ cap ∈ request.input.capabilities, cap.category = MCP_CATEGORY →
    cap.skill_id = skillId platform.toLowerCase request.input.server → cap.health ≠ .offline →
      cap.agent_id ≠ node.ingress.selfAgentId
  not_self : forward.targetAgentId ≠ node.ingress.selfAgentId
  url : ∃ endpoint base last,
    node.ingress.resolvePeer forward.targetAgentId = .peer endpoint ∧ parse endpoint = some base ∧
      parse forward.url = some ⟨"https:", base.origin, ["api", "mcp", last]⟩ ∧
      decodeURIComponent last = some request.input.server
  pinned : node.ingress.requireServerIdentity = true → forward.requireServerIdentity = true ∧
    forward.expectedServerSpiffeId = some forward.targetAgentId
  hop : readIncomingHop request.hop = .ofInt 0

/-- Where the URL of a forward comes from, and what it is parsed to. -/
theorem url_of_sent (hencode : platform.encodeURIComponent = encodeURIComponent)
    (hparse : ParsesUrls platform parse) (h : forward ∈ node.sent platform request) :
    ∃ endpoint base, node.ingress.resolvePeer forward.targetAgentId = .peer endpoint ∧
      parse endpoint = some base ∧
      parse forward.url = some ⟨"https:", base.origin,
        pathFrom [] ["api", "mcp", encodeURIComponent request.input.server]⟩ := by
  obtain ⟨_, _, req, spec, hsent⟩ := sentFor_of_sent h
  obtain ⟨_, target, endpoint, origin, hroute⟩ := remoteRoute_of_route hsent.admitted.routable
  have htarget : forward.targetAgentId = target.agent_id := by
    rw [hsent.forwarded.request, ← hroute.targetAgentId]
    exact hsent.specified.targetAgentId
  have hurl : forward.url = origin ++ "/api/mcp/" ++ encodeURIComponent request.input.server := by
    rw [hsent.forwarded.request, ← hencode, ← hroute.url]
    exact hsent.specified.url
  obtain ⟨base, hbase, hpair⟩ := Option.map_eq_some_iff.mp
    ((hparse.parseUrl endpoint).symm.trans hroute.https)
  obtain ⟨hprotocol, rfl⟩ := Prod.mk.inj hpair
  refine ⟨endpoint, base, htarget ▸ hroute.peer, hbase, ?_⟩
  rw [hurl, url_eq_slashed]
  refine hparse.path hbase hprotocol _ (List.cons_ne_nil _ _) fun segment hsegment c hc => ?_
  have hapi : ∀ c ∈ "api".toList, Js.isComponentChar c = true := List.all_eq_true.mp (by decide)
  have hmcp : ∀ c ∈ "mcp".toList, Js.isComponentChar c = true := List.all_eq_true.mp (by decide)
  simp only [List.mem_cons, List.not_mem_nil, or_false] at hsegment
  rcases hsegment with rfl | rfl | rfl
  · exact hapi c hc
  · exact hmcp c hc
  · exact Js.isComponentChar_encodeURIComponent hc

/-- The promise holds of a forward exactly if its server is not a relative segment. -/
theorem forwardsToOwner_iff (hencode : platform.encodeURIComponent = encodeURIComponent)
    (hparse : ParsesUrls platform parse) (h : forward ∈ node.sent platform request) :
    ForwardsToOwner platform parse node request forward ↔
      request.input.server ≠ "." ∧ request.input.server ≠ ".." := by
  obtain ⟨endpoint, base, hpeer, hbase, hurl⟩ := url_of_sent hencode hparse h
  constructor
  · intro hpromise
    obtain ⟨_, _, last, _, _, hlast, hdecode⟩ := hpromise.url
    rw [hurl] at hlast
    have hpath := congrArg Url.path (Option.some.inj hlast)
    rw [← not_or]
    exact fun hdots => pathFrom_dots hdots hpath hdecode
  · rintro ⟨hdot, hdotdot⟩
    obtain ⟨hsingle, hdouble⟩ := Js.encode_notMem_dotSegments hdot hdotdot
    -- what was asked for the request, and the capability that the route was planned for
    obtain ⟨before, tier, req, spec, hsent⟩ := sentFor_of_sent h
    obtain ⟨resolutions, target, _, _, hroute⟩ := remoteRoute_of_route hsent.admitted.routable
    obtain ⟨-, hmem, hself, hothers⟩ := planMcpRoute_remote hroute.planned
    obtain ⟨cap, hcap, hcategory, hskill, hhealth, hagent, hderived⟩ :=
      resolveMcp_sound hroute.resolved hmem
    have htarget : forward.targetAgentId = target.agent_id := by
      rw [hsent.forwarded.request, ← hroute.targetAgentId]
      exact hsent.specified.targetAgentId
    refine ⟨⟨before, .remote req, tier, cap, hsent.calls, hsent.admitted,
      ⟨hcap, hcategory, hskill, hhealth, ?_⟩, hagent.trans htarget.symm⟩, ?_, ?_, ?_, ?_,
      hop_of_sent h⟩
    · rw [hderived, ← hroute.execution_tier]
      rfl
    · intro other hother hcategory' hskill' hhealth'
      obtain ⟨r, hr, hragent, hrskill, hrhealth⟩ :=
        resolveMcp_complete hroute.resolved hother hcategory' hskill' hhealth'
      rw [← hragent]
      exact hothers r hr (hrskill.trans hskill') (hrhealth ▸ hhealth')
    · rw [htarget]
      exact hself
    · refine ⟨endpoint, base, _, hpeer, hbase, ?_,
        Js.decodeURIComponent_encodeURIComponent request.input.server⟩
      rw [hurl, pathFrom_component hsingle hdouble]
    · intro hpin
      have hactive : spec.requireServerIdentity = true := by
        rw [hsent.specified.pinned, hroute.pinned, hpin]
      have hexpected := hsent.specified.expected hactive
      rw [hroute.expected, if_pos hpin, ← htarget] at hexpected
      rw [hsent.forwarded.request] at hexpected ⊢
      exact ⟨hactive, hexpected⟩

end Law

/-- Every forward keeps its promise exactly if its server is not a relative segment, and no
request of a client is forwarded twice in any network of nodes. -/
theorem forwarding_law {Body : Type} {platform : Platform} {parse : String → Option Url}
    (hencode : platform.encodeURIComponent = encodeURIComponent)
    (hparse : ParsesUrls platform parse) :
    (∀ (node : ForwardNode Body) (request : ForwardRequest),
      ∀ forward ∈ node.sent platform request,
        (ForwardsToOwner platform parse node request forward ↔
          request.input.server ≠ "." ∧ request.input.server ≠ "..")) ∧
      ∀ s, (hopNetwork Body platform).Reachable s → s.forwarded.Nodup :=
  ⟨fun _ _ _ hforward => forwardsToOwner_iff hencode hparse hforward,
    fun _ hs => (hopNetwork_inv hs).forwarded⟩

/-! ## A request for a server of another node -/

section Sample

def ownerOrigin : String := "https://owner:9440"

/-- The URLs of one host. -/
def parseOwnerUrl (text : String) : Option Url :=
  if ownerOrigin.toList <+: text.toList then
    match text.toList.drop ownerOrigin.toList.length with
    | [] => some ⟨"https:", ownerOrigin, [""]⟩
    | '/' :: path =>
        some ⟨"https:", ownerOrigin, pathFrom [] ((path.splitOn '/').map String.ofList)⟩
    | _ => none
  else none

def samplePlatform : Platform where
  toLowerCase := id
  parseUrl text := (parseOwnerUrl text).map fun url => (url.protocol, url.origin)
  encodeURIComponent := encodeURIComponent

theorem toList_slashed {segments : List String} (hne : segments ≠ []) :
    (slashed segments).toList = '/' :: ['/'].intercalate (segments.map String.toList) := by
  have hall : (slashed segments).toList = segments.flatMap fun s => '/' :: s.toList := by
    simp [slashed, List.flatMap, Function.comp_def]
  rw [hall]
  clear hall
  induction segments with
  | nil => exact absurd rfl hne
  | cons s rest ih =>
      cases rest with
      | nil => simp
      | cons t rest =>
          rw [List.flatMap_cons, ih (List.cons_ne_nil _ _), List.map_cons, List.map_cons,
            List.map_cons, List.intercalate_cons_cons]
          simp

theorem parsesUrls_samplePlatform : ParsesUrls samplePlatform parseOwnerUrl := by
  refine ⟨fun _ => rfl, fun {text url} hparse _ segments hne hchars => ?_⟩
  have horigin : url.origin = ownerOrigin := by
    unfold parseOwnerUrl at hparse
    split at hparse
    · split at hparse <;> cases hparse <;> rfl
    · cases hparse
  have hslash : ∀ l ∈ segments.map String.toList, '/' ∉ l := by
    intro l hl hmem
    obtain ⟨segment, hsegment, rfl⟩ := List.mem_map.mp hl
    exact absurd (hchars segment hsegment _ hmem) (by decide)
  unfold parseOwnerUrl
  rw [horigin, String.toList_append, if_pos (List.prefix_append _ _), List.drop_left,
    toList_slashed hne]
  change some _ = _
  rw [List.splitOn_intercalate _ hslash (by simpa using hne), List.map_map]
  have hid : segments.map (String.ofList ∘ String.toList) = segments := by
    simp [Function.comp_def]
  rw [hid]

/-- A node that pins its peers and serves nothing itself. -/
def sampleNode : ForwardNode Unit where
  ingress :=
    { selfAgentId := "spiffe://thinklocal/node/12D3Self"
      resolvePeer := fun _ => .peer ownerOrigin
      isAuthorizedSender := fun _ => some true
      requireServerIdentity := true
      resolveApproval := none }
  executor :=
    { selfAgentId := "spiffe://thinklocal/node/12D3Self"
      httpForward := fun _ => some (.ok ⟨200, ()⟩)
      audit := none
      timeoutMs := none
      localExec := none }
  same_self := rfl

/-- A request for the tools of a server that another node shares. -/
def sampleRequest (server : String) : ForwardRequest where
  input :=
    { server := server
      senderUri := some "spiffe://thinklocal/node/12D3Client"
      capabilities :=
        [{ skill_id := "mcp:" ++ server, version := "1.0.0", description := "shared"
           agent_id := "spiffe://thinklocal/node/12D3Owner", health := .healthy
           trust_level := .finite 3, category := MCP_CATEGORY, permissions := some [some "read"] }]
      payload := some (.object [("method", .string "tools/list")]) }
  hop := none

end Sample

/-- A request for the server `unifi` of another node reaches it. -/
theorem forwarding_law_unifi :
    ∃ forward ∈ sampleNode.sent samplePlatform (sampleRequest "unifi"),
      ForwardsToOwner samplePlatform parseOwnerUrl sampleNode (sampleRequest "unifi") forward := by
  have htarget : (sampleNode.sent samplePlatform (sampleRequest "unifi")).map (·.targetAgentId) =
      ["spiffe://thinklocal/node/12D3Owner"] := by decide +kernel
  obtain ⟨forward, hforward, -⟩ := List.mem_map.mp (htarget ▸ List.mem_singleton_self _)
  exact ⟨forward, hforward,
    ((forwarding_law rfl parsesUrls_samplePlatform).1 _ _ forward hforward).mpr (by decide)⟩

/-- A request for a server `..` is sent to the path `/api/`. -/
theorem relative_server_lost :
    ∃ forward ∈ sampleNode.sent samplePlatform (sampleRequest ".."),
      parseOwnerUrl forward.url = some ⟨"https:", ownerOrigin, ["api", ""]⟩ ∧
      ¬ ForwardsToOwner samplePlatform parseOwnerUrl sampleNode (sampleRequest "..") forward := by
  have hurl : ((sampleNode.sent samplePlatform (sampleRequest "..")).map
      fun forward => parseOwnerUrl forward.url) =
        [some ⟨"https:", ownerOrigin, ["api", ""]⟩] := by decide +kernel
  obtain ⟨forward, hforward, hpath⟩ := List.mem_map.mp (hurl ▸ List.mem_singleton_self _)
  exact ⟨forward, hforward, hpath, fun hpromise =>
    ((forwardsToOwner_iff rfl parsesUrls_samplePlatform hforward).mp hpromise).2 rfl⟩

end ThinkLocal.Mcp
