import ThinkLocal.Inbox.InboxApi

/-!
# Addressing an instance of the own daemon

A message to the URI that an instance got at its registration should be stored for the
instance.  The URI is made in the legacy grammar from the node of the daemon and the type of
the agent, and the route compares its normal form with the identity of the daemon.  So the
daemon takes the instance for its own only if it has a legacy identity of the same type.
-/

namespace ThinkLocal.Inbox

open Foundation Js Mesh Messages Spiffe

variable {C : Codec} {P : Platform} {deps : InboxApiDeps} {request : SendRequest}
  {body : SendBody} {draws : Draws} {mesh : MeshManager} {outcome : FetchOutcome} {now : Int}
  {target bodyStr : String} {parsed : ParsedSpiffeUri}

/-! ## Sending to a parsed target -/

def SendResult.IsLoopback : SendResult → Prop
  | loopback .. => True
  | _ => False

theorem not_isLoopback_finishSend {message : Outbound} :
    ¬ (finishSend C mesh message outcome now).IsLoopback := by
  cases outcome <;> exact id

/-- A message to another daemon is not stored. -/
theorem not_isLoopback_of_ne (h : request.Fits P body target bodyStr)
    (hparse : parseSpiffeUri target = .ok parsed) (hne : parsed.daemon ≠ deps.ownAgentId) :
    ¬ (postSend C P deps request draws mesh outcome now).2.IsLoopback := by
  rw [postSend, send_of_fits h hparse, dispatch_of_parse hparse, if_neg hne]
  unfold sendRemote
  split
  case h_1 inbox result heq =>
    obtain ⟨-, hresult⟩ := Prod.mk.inj heq
    split at hresult
    case h_1 =>
      obtain rfl := SendStep.done.inj hresult
      exact id
    case h_2 =>
      split at hresult
      case isTrue =>
        obtain rfl := SendStep.done.inj hresult
        exact id
      case isFalse => cases hresult
  case h_2 => exact not_isLoopback_finishSend

/-- A message to the own daemon is handed to the inbox. -/
theorem postSend_of_own (h : request.Fits P body target bodyStr)
    (hparse : parseSpiffeUri target = .ok parsed) (hown : parsed.daemon = deps.ownAgentId)
    {inbox : AgentInbox} {result : StoreResult}
    (hstore : deps.inbox.store P deps.ownAgentId (body.payload draws) none draws.storedAt =
      some (inbox, result)) :
    postSend C P deps request draws mesh outcome now =
      (inbox, .loopback draws.messageId (isoText draws.sentAt) result.status) := by
  rw [postSend, send_of_fits h hparse, dispatch_of_parse hparse, if_pos hown, hstore]

/-! ## Delivery to an instance -/

/-- The message was stored for the instance and is listed for it. -/
def DeliveredTo (answer : AgentInbox × SendResult) (messageId daemon instanceId bodyStr : String)
    (storedAt : Int) : Prop :=
  (∃ sentAt, answer.2 = .loopback messageId sentAt "delivered") ∧
    ∃ row ∈ answer.1.list { forInstance := some instanceId },
      row.Holds messageId daemon daemon (some instanceId) bodyStr (isoText storedAt) none

/-- The listed rows of the instance that are at least as new. -/
def asNew (inbox : AgentInbox) (instanceId : String) (storedAt : Int) : Nat :=
  (inbox.messages.filter (ListOptions.selects { forInstance := some instanceId })).countP
    fun row => isoText storedAt ≤ row.received_at

/-- A message to an instance of the own daemon is stored and listed for it, if its id is new and
the list has a place for it. -/
theorem deliveredTo_of_own {instanceId : String} (h : request.Fits P body target bodyStr)
    (hparse : parseSpiffeUri target = .ok parsed) (hown : parsed.daemon = deps.ownAgentId)
    (htail : parsed.tail = some instanceId) (hid : draws.messageId ≠ "") :
    DeliveredTo (postSend C P deps request draws mesh outcome now) draws.messageId
        deps.ownAgentId instanceId bodyStr draws.storedAt ↔
      deps.inbox.findByMessageId draws.messageId = none ∧
        asNew deps.inbox instanceId draws.storedAt < 50 := by
  have hfits : (body.payload draws).Fits P bodyStr draws.messageId := h.fits.payload hid
  have hinst : instanceId ≠ "" := by
    obtain ⟨-, -, hvalid⟩ := parseSpiffeUri_eq_ok.mp hparse
    cases parsed with
    | node => cases htail
    | host => exact ne_empty_of_isComponent (hvalid.2.2 instanceId htail)
  cases hfind : deps.inbox.findByMessageId draws.messageId with
  | some existing =>
      -- a known id is answered as a duplicate
      rw [postSend_of_own h hparse hown (AgentInbox.store_of_duplicate hfits.admissible hfind)]
      have hdifferent : ¬ ("duplicate" : String) = "delivered" := by decide
      constructor
      · rintro ⟨⟨sentAt, hanswer⟩, -⟩
        obtain ⟨-, -, hstatus⟩ := SendResult.loopback.inj hanswer
        exact absurd hstatus hdifferent
      · rintro ⟨hnone, -⟩
        cases hnone
  | none =>
      have htarget : storedTarget (body.payload draws).target =
          .ok (deps.ownAgentId, some instanceId) := by
        rw [← hown, ← htail]
        show storedTarget body.target = _
        rw [h.fits.target_eq]
        exact storedTarget_of_parse hparse
      obtain ⟨stored, row, hstore, hmessages, hrow⟩ := AgentInbox.store_of_new hfits hfind htarget
      rw [postSend_of_own h hparse hown hstore]
      have hnew : row ∉ deps.inbox.messages := by
        intro hmem
        refine AgentInbox.findByMessageId_eq_none.mp hfind ?_
        exact hrow.message_id ▸ List.mem_map_of_mem hmem
      -- the new row is listed exactly if it is among the newest 50
      have hlisted : row ∈ stored.list { forInstance := some instanceId } ↔
          asNew deps.inbox instanceId draws.storedAt < 50 := by
        rw [AgentInbox.mem_list_of_newest hmessages hnew hinst hrow.to_agent_instance hrow.archived,
          hrow.received_at]
        rfl
      constructor
      · rintro ⟨-, other, hother, hholds⟩
        refine ⟨rfl, hlisted.mp ?_⟩
        have hmem : other ∈ stored.messages := AgentInbox.mem_of_mem_list hother
        rw [hmessages] at hmem
        rcases List.mem_append.mp hmem with hold | hlast
        · exact absurd (hholds.message_id ▸ List.mem_map_of_mem hold)
            (AgentInbox.findByMessageId_eq_none.mp hfind)
        · rw [← List.mem_singleton.mp hlast]
          exact hother
      · rintro ⟨-, hroom⟩
        exact ⟨⟨_, rfl⟩, row, hlisted.mpr hroom, hrow⟩

/-- A registered instance can be addressed exactly if the daemon has a legacy identity of the
type of the instance, the message id is new and the list has a place for the message. -/
theorem instance_addressed_iff {version heartbeatIntervalMs staleFactor maxEntries : Nat}
    {registry : AgentRegistry} {ip agentType instanceId uri : String} {pid cli_version : Plain}
    {registeredAt : Int} {interval v : Nat}
    (hreachable : (agentApi deps.ownAgentId version heartbeatIntervalMs staleFactor
      maxEntries).Reachable registry)
    (hregistered : (postRegister deps.ownAgentId version registry ip
      (some ⟨.string agentType, .string instanceId, pid, cli_version⟩) registeredAt).2 =
        .registered uri interval v)
    (hfits : request.Fits P body uri bodyStr) (hid : draws.messageId ≠ "") :
    DeliveredTo (postSend C P deps request draws mesh outcome now) draws.messageId
        deps.ownAgentId instanceId bodyStr draws.storedAt ↔
      (∃ stableNodeId, parseSpiffeUri deps.ownAgentId =
          .ok (.host stableNodeId agentType none deps.ownAgentId)) ∧
        deps.inbox.findByMessageId draws.messageId = none ∧
        asNew deps.inbox instanceId draws.storedAt < 50 := by
  have hbuilt : buildInstanceSpiffe deps.ownAgentId agentType instanceId = some uri :=
    buildInstanceSpiffe_of_registered (wellNamed_of_reachable hreachable) rfl rfl hregistered
  obtain ⟨parsed, hparse, ⟨hnode, htype, hinst⟩, rfl⟩ := buildInstanceSpiffe_eq_some.mp hbuilt
  have hinstance := parseSpiffeUri_instance hnode htype hinst
  rw [← instance_of_daemon hparse hnode htype]
  -- if the daemon has another identity, the message leaves it
  by_cases hown : hostUri (nodeIdentifier parsed) agentType = deps.ownAgentId
  · rw [deliveredTo_of_own hfits hinstance hown rfl hid, and_iff_right hown]
  · constructor
    · rintro ⟨⟨sentAt, hanswer⟩, -⟩
      have hlocal : (postSend C P deps request draws mesh outcome now).2.IsLoopback := by
        rw [hanswer]
        trivial
      exact absurd hlocal (not_isLoopback_of_ne hfits hinstance hown)
    · rintro ⟨hsame, -⟩
      exact absurd hsame hown

/-! An instance `alpha` of type `codex` at a daemon of this type and at one with a canonical
identity. -/

def legacyUri : String := "spiffe://thinklocal/host/a/agent/codex"

def canonicalUri : String :=
  "spiffe://thinklocal/node/12D3KooWAAAAAAAAAAAAAAAAAAAAAAAAAAAAAAAAAAAA"

def alphaBody : RegisterBody := ⟨.string "codex", .string "alpha", .undefined, .undefined⟩

def loneDeps (ownAgentId : String) : InboxApiDeps where
  inbox := .empty
  mesh := .empty
  ownAgentId := ownAgentId
  ownPrivateKeyPem := "private"
  agentRegistry := none
  pairingStore := none

/-- At the daemon of its type the instance gets its message. -/
theorem instance_addressed_legacy :
    DeliveredTo (postSend silentCodec textPlatform (loneDeps legacyUri)
      (textRequest "spiffe://thinklocal/host/a/agent/codex/instance/alpha") sampleDraws .empty
      (.failed "") 0) "message" legacyUri "alpha" "text" 0 := by
  have hregistered : (postRegister legacyUri 1 (.new 5000 3 1000) "127.0.0.1"
      (some alphaBody) 0).2 =
        .registered "spiffe://thinklocal/host/a/agent/codex/instance/alpha" 5000 1 := by rfl
  have hparse : parseSpiffeUri legacyUri = .ok (.host "a" "codex" none legacyUri) := by rfl
  have hinit : (agentApi legacyUri 1 5000 3 1000).Reachable (.new 5000 3 1000) := .init
  refine Iff.mpr (instance_addressed_iff hinit hregistered (fits_textRequest _) (by decide)) ?_
  exact ⟨⟨"a", hparse⟩, rfl, by decide⟩

/-- At a daemon with a canonical identity it is looked for in the mesh. -/
theorem instance_unaddressed :
    (postRegister canonicalUri 1 (.new 5000 3 1000) "127.0.0.1" (some alphaBody) 0).2 =
        .registered ("spiffe://thinklocal/host/12D3KooWAAAAAAAAAAAAAAAAAAAAAAAAAAAAAAAAAAAA" ++
          "/agent/codex/instance/alpha") 5000 1 ∧
      (postSend silentCodec textPlatform (loneDeps canonicalUri)
        (textRequest ("spiffe://thinklocal/host/12D3KooWAAAAAAAAAAAAAAAAAAAAAAAAAAAAAAAAAAAA" ++
          "/agent/codex/instance/alpha")) sampleDraws .empty (.failed "") 0).2 =
        .error 404 "peer not found in mesh"
          [("target", "spiffe://thinklocal/host/12D3KooWAAAAAAAAAAAAAAAAAAAAAAAAAAAAAAAAAAAA" ++
            "/agent/codex/instance/alpha"), ("hint", "Use discover_peers to see known agents")] := by
  have huri : "spiffe://thinklocal/host/12D3KooWAAAAAAAAAAAAAAAAAAAAAAAAAAAAAAAAAAAA" ++
      "/agent/codex/instance/alpha" =
        hostUri "12D3KooWAAAAAAAAAAAAAAAAAAAAAAAAAAAAAAAAAAAA" "codex" ++ "/instance/" ++ "alpha" := by
    decide +kernel
  -- the legacy identity of the target is not that of the daemon
  obtain ⟨parsed, hparse, hne⟩ : ∃ parsed, parseSpiffeUri
      ("spiffe://thinklocal/host/12D3KooWAAAAAAAAAAAAAAAAAAAAAAAAAAAAAAAAAAAA" ++
        "/agent/codex/instance/alpha") = .ok parsed ∧
          ¬ parsed.daemon = (loneDeps canonicalUri).ownAgentId := by
    rw [huri]
    exact ⟨_, parseSpiffeUri_instance (by decide +kernel) (by decide +kernel) (by decide +kernel),
      by decide +kernel⟩
  refine ⟨by rfl, ?_⟩
  rw [postSend, send_of_fits (fits_textRequest _) hparse, dispatch_of_parse hparse, if_neg hne]
  rfl

end ThinkLocal.Inbox
