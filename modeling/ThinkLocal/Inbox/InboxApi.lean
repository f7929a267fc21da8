import ThinkLocal.Inbox.AgentInbox
import ThinkLocal.Inbox.AgentRegistry
import ThinkLocal.Mesh.MeshManager
import ThinkLocal.Pairing.PairingStore

/-!
# Sending

`POST /api/inbox/send` of `inbox-api.ts`.  A message to the own daemon, also to one of its
instances, is stored at once.  Any other goes to the peer of its normalised target: the route
signs it, waits for the answer of the peer and reads the acknowledgement out of it, looking
up the peer once more.

What is drawn at random, the readings of the clock and the answer of the peer are given from
outside.
-/

namespace ThinkLocal.Inbox

open Foundation Js Mesh Messages Pairing Spiffe

structure InboxApiDeps where
  inbox : AgentInbox
  mesh : MeshManager
  ownAgentId : String
  ownPrivateKeyPem : String
  agentRegistry : Option AgentRegistry
  pairingStore : Option PairingStore

/-- A JSON body, whose fields have any type. -/
structure SendBody where
  /-- The field `to`. -/
  target : Data
  body : Data
  subject : Data
  in_reply_to : Data

structure SendRequest where
  ip : String
  /-- The answer of the rate limiter. -/
  allowed : Bool
  body : Option SendBody

/-- What one call draws and reads. -/
structure Draws where
  messageId : String
  envelopeId : String
  /-- The message ids of a broadcast. -/
  fanoutId : Nat → String
  sentAt : Int
  storedAt : Int
  envelopeAt : Int

inductive SendResult
  | error (code : Nat) (error : String) (details : List (String × String))
  /-- The route throws. -/
  | threw
  | broadcast (message_id sent_at : String) (fanout : List (String × String))
  | loopback (message_id sent_at inbox_status : String)
  | remote (message_id sent_at : String) (peer_status : Nat) (ack_verified : Bool)
      (ack_status : Data)

/-- A message on its way to a peer. -/
structure Outbound where
  url : String
  target : String
  normalizedTo : String
  message_id : String
  sent_at : String
  envelope : MessageEnvelope
  signed : SignedMessage

inductive SendStep
  | done (result : SendResult)
  | outbound (message : Outbound)

/-! ## Before the request -/

def MAX_BODY_BYTES : Nat := 64 * 1024

/-- The text ends in `/instance/*`. -/
def isBroadcast (target : String) : Bool := "/instance/*".toList <:+ target.toList

variable (C : Codec) (P : Platform)

/-- One message for each instance; also `none` once a call of `store` throws. -/
def broadcast (ownAgentId normalizedTo : String) (payload : AgentMessagePayload)
    (fanoutId : Nat → String) (now : Int) :
    AgentInbox → List (AgentRegistryEntry × Nat) → AgentInbox × Option (List (String × String))
  | inbox, [] => (inbox, some [])
  | inbox, (inst, i) :: rest =>
      let targetPayload := { payload with
        message_id := .string (fanoutId i)
        target := .string (normalizedTo ++ "/instance/" ++ inst.instanceId) }
      match inbox.store P ownAgentId targetPayload none now with
      | none => (inbox, none)
      | some (inbox, _) =>
          let (inbox, results) := broadcast ownAgentId normalizedTo payload fanoutId now inbox rest
          (inbox, results.map fun results => (inst.instanceId, "delivered") :: results)

/-- The path to a peer. -/
def sendRemote (deps : InboxApiDeps) (target normalizedTo : String) (payload : AgentMessagePayload)
    (draws : Draws) : SendStep :=
  match (deps.mesh.getPeer normalizedTo).filter fun peer => peer.endpoint ≠ "" with
  | none =>
      .done <| .error 404 "peer not found in mesh"
        [("target", target), ("hint", "Use discover_peers to see known agents")]
  | some peer =>
      if deps.pairingStore.any fun store => !store.isPaired (.string normalizedTo) then
        .done <| .error 403 "peer not paired"
          [("target", target), ("hint", "Use start_pairing to establish trust with this peer first")]
      else
        let envelope := createEnvelope MessageType.AGENT_MESSAGE deps.ownAgentId payload.data none
          (some 60000) draws.envelopeId draws.envelopeAt
        .outbound
          { url := peer.endpoint ++ "/message"
            target := target
            normalizedTo := normalizedTo
            message_id := draws.messageId
            sent_at := isoText draws.sentAt
            envelope := envelope
            signed := encodeAndSign C envelope deps.ownPrivateKeyPem }

/-- The three paths of a checked message. -/
def dispatch (deps : InboxApiDeps) (target normalizedTo : String) (payload : AgentMessagePayload)
    (draws : Draws) : AgentInbox × SendStep :=
  match deps.agentRegistry.filter fun _ => isBroadcast target with
  | some registry =>
      let (inbox, results) := broadcast P deps.ownAgentId normalizedTo payload draws.fanoutId
        draws.storedAt deps.inbox registry.list.zipIdx
      match results with
      | none => (inbox, .done .threw)
      | some results =>
          (inbox, .done (.broadcast draws.messageId (isoText draws.sentAt) results))
  | none =>
      if normalizedTo = deps.ownAgentId then
        match deps.inbox.store P deps.ownAgentId payload none draws.storedAt with
        | none => (deps.inbox, .done .threw)
        | some (inbox, result) =>
            (inbox, .done (.loopback draws.messageId (isoText draws.sentAt) result.status))
      else (deps.inbox, sendRemote C deps target normalizedTo payload draws)

/-- The payload of a message. -/
def SendBody.payload (body : SendBody) (draws : Draws) : AgentMessagePayload where
  message_id := .string draws.messageId
  target := body.target
  subject := body.subject
  body := body.body
  in_reply_to := body.in_reply_to
  sent_at := .string (isoText draws.sentAt)

/-- The checks of a body with a target. -/
def sendBody (deps : InboxApiDeps) (body : SendBody) (target : String) (draws : Draws) :
    AgentInbox × SendStep :=
  let refuse (code : Nat) (error : String) : AgentInbox × SendStep :=
    (deps.inbox, .done (.error code error []))
  if body.body.isNullish then refuse 400 "missing `body`"
  else
    match normalizeAgentId target with
    | .error message => refuse 400 ("invalid target SPIFFE-URI: " ++ message)
    | .ok normalizedTo =>
        match bodyText body.body with
        | none => (deps.inbox, .done .threw)
        | some bodyStr =>
            if MAX_BODY_BYTES < bodyStr.utf8ByteSize then
              refuse 413 ("body exceeds " ++ toString MAX_BODY_BYTES ++ " bytes")
            else
              match subjectTooLong P body.subject with
              | none => (deps.inbox, .done .threw)
              | some true => refuse 400 "subject exceeds 200 chars"
              | some false => dispatch C P deps target normalizedTo (body.payload draws) draws

def send (deps : InboxApiDeps) (request : SendRequest) (draws : Draws) : AgentInbox × SendStep :=
  let refuse (code : Nat) (error : String) (details : List (String × String)) :
      AgentInbox × SendStep := (deps.inbox, .done (.error code error details))
  if ¬ isLocal request.ip then refuse 403 "inbox API is local-only" [("remote", request.ip)]
  else if ¬ request.allowed then refuse 429 "Too Many Requests" [("op", "send")]
  else
    match request.body with
    | none => refuse 400 "missing JSON body" []
    | some body =>
        match body.target.text?.filter fun text => text ≠ "" with
        | none => refuse 400 "missing or invalid `to` (target SPIFFE-URI)" []
        | some target => sendBody C P deps body target draws

/-! ## After the request -/

/-- The answer of the peer. -/
inductive FetchOutcome
  /-- There is none. -/
  | failed (message : String)
  | refused (status : Nat) (text : String)
  /-- With its body, if it can be read. -/
  | answered (status : Nat) (body : Option Bytes)

/-- `ackVerified` and `ackStatus`. -/
def readAck (publicKey : Option String) (body : Option Bytes) (now : Int) : Bool × Data :=
  match publicKey, body.filter fun bytes => bytes ≠ [] with
  | some key, some bytes =>
      match (C.deserializeSignedMessage bytes).bind fun signed => decodeAndVerify C signed key now with
      | some (some envelope) => (true, (envelope.payload.get "status").getD .undefined)
      | _ => (false, .undefined)
  | _, _ => (false, .undefined)

/-- The key of the peer for a message. -/
def Outbound.peerKey (message : Outbound) (mesh : MeshManager) : Option String :=
  (mesh.getPeer message.normalizedTo).bind MeshPeer.publicKey

/-- The route with the mesh as it is when the peer has answered. -/
def finishSend (mesh : MeshManager) (message : Outbound) (outcome : FetchOutcome) (now : Int) :
    SendResult :=
  match outcome with
  | .failed detail => .error 502 "send failed" [("detail", detail)]
  | .refused status text =>
      .error 502 "peer rejected message"
        [("status", toString status), ("detail", String.ofList (text.toList.take 500))]
  | .answered status body =>
      let (ackVerified, ackStatus) := readAck C (message.peerKey mesh) body now
      .remote message.message_id message.sent_at status ackVerified ackStatus

/-- `POST /api/inbox/send`. -/
def postSend (deps : InboxApiDeps) (request : SendRequest) (draws : Draws)
    (mesh : MeshManager) (outcome : FetchOutcome) (now : Int) : AgentInbox × SendResult :=
  match send C P deps request draws with
  | (inbox, .done result) => (inbox, result)
  | (inbox, .outbound message) => (inbox, finishSend C mesh message outcome now)

/-! ## Messages of texts -/

/-- A body of texts that keeps the limits. -/
structure SendBody.Fits (P : Platform) (body : SendBody) (target bodyStr : String) : Prop where
  target_eq : body.target = .string target
  text : bodyText body.body = some bodyStr
  present : body.body.isNullish = false
  size : bodyStr.utf8ByteSize ≤ MAX_BODY_BYTES
  subject_text : IsText body.subject
  short : subjectTooLong P body.subject = some false
  reply_text : IsText body.in_reply_to

/-- A local request within the rate that has such a body. -/
structure SendRequest.Fits (P : Platform) (request : SendRequest) (body : SendBody)
    (target bodyStr : String) : Prop where
  ip_local : isLocal request.ip = true
  allowed : request.allowed = true
  body_eq : request.body = some body
  fits : body.Fits P target bodyStr

variable {C P} {deps : InboxApiDeps} {request : SendRequest} {body : SendBody}
  {target bodyStr : String} {draws : Draws} {parsed : ParsedSpiffeUri}

/-- What the route takes, the inbox takes. -/
theorem SendBody.Fits.payload (h : body.Fits P target bodyStr) (hid : draws.messageId ≠ "") :
    (body.payload draws).Fits P bodyStr draws.messageId where
  body := h.text
  size := h.size
  subject := h.subject_text
  short := h.short
  message_id := rfl
  nonempty := hid
  in_reply_to := h.reply_text
  sent_at := ⟨_, rfl⟩

theorem star_notMem_of_parse (h : parseSpiffeUri target = .ok parsed) : '*' ∉ target.toList := by
  obtain ⟨-, rfl, hvalid⟩ := parseSpiffeUri_eq_ok.mp h
  rw [ParsedSpiffeUri.toList_uri, List.mem_append, not_or]
  refine ⟨by decide, ?_⟩
  intro hstar
  rcases mem_joinSegments hstar with hsep | ⟨token, htoken, hmem⟩
  · exact absurd hsep (by decide)
  · exact notMem_of_isComponent
      (ParsedSpiffeUri.isComponent_of_mem_tokens hvalid token htoken) (by decide) hmem

/-- A target that parses is no broadcast. -/
theorem isBroadcast_of_parse (h : parseSpiffeUri target = .ok parsed) :
    isBroadcast target = false := by
  refine decide_eq_false fun hsuffix => star_notMem_of_parse h ?_
  exact hsuffix.mem (by decide)

theorem send_of_fits (h : request.Fits P body target bodyStr)
    (hparse : parseSpiffeUri target = .ok parsed) :
    send C P deps request draws =
      dispatch C P deps target parsed.daemon (body.payload draws) draws := by
  have htarget : (body.target.text?.filter fun text => decide (text ≠ "")) = some target := by
    rw [h.fits.target_eq]
    refine Option.filter_eq_some_iff.mpr ⟨rfl, decide_eq_true ?_⟩
    rintro rfl
    cases hparse
  have hnormal : normalizeAgentId target = .ok parsed.daemon :=
    normalizeAgentId_eq_ok.mpr ⟨parsed, hparse, rfl⟩
  have hchecked : sendBody C P deps body target draws =
      dispatch C P deps target parsed.daemon (body.payload draws) draws := by
    simp [sendBody, h.fits.present, hnormal, h.fits.text, h.fits.short,
      Nat.not_lt.mpr h.fits.size]
  rw [send, if_neg (by simp [h.ip_local]), if_neg (by simp [h.allowed]), h.body_eq]
  dsimp only
  rw [htarget]
  exact hchecked

theorem dispatch_of_parse {payload : AgentMessagePayload}
    (hparse : parseSpiffeUri target = .ok parsed) :
    dispatch C P deps target parsed.daemon payload draws =
      if parsed.daemon = deps.ownAgentId then
        match deps.inbox.store P deps.ownAgentId payload none draws.storedAt with
        | none => (deps.inbox, .done .threw)
        | some (inbox, result) =>
            (inbox, .done (.loopback draws.messageId (isoText draws.sentAt) result.status))
      else (deps.inbox, sendRemote C deps target parsed.daemon payload draws) := by
  have hnone : (deps.agentRegistry.filter fun _ => isBroadcast target) = none := by
    rw [isBroadcast_of_parse hparse]
    cases deps.agentRegistry <;> rfl
  rw [dispatch, hnone]

/-- A message to another daemon goes out as it is. -/
theorem outbound_of_send (h : request.Fits P body target bodyStr)
    (hparse : parseSpiffeUri target = .ok parsed) {message : Outbound}
    (hsent : (send C P deps request draws).2 = .outbound message) :
    message.envelope =
      createEnvelope MessageType.AGENT_MESSAGE deps.ownAgentId (body.payload draws).data none
        (some 60000) draws.envelopeId draws.envelopeAt := by
  rw [send_of_fits h hparse, dispatch_of_parse hparse] at hsent
  split at hsent
  case isTrue => split at hsent <;> cases hsent
  case isFalse =>
    unfold sendRemote at hsent
    split at hsent
    case h_1 => cases hsent
    case h_2 =>
      split at hsent
      case isTrue => cases hsent
      case isFalse =>
        obtain rfl := SendStep.outbound.inj hsent
        rfl

/-! A text that a daemon sends, which knows one peer. -/

def peerUri : String := "spiffe://thinklocal/host/b/agent/codex"

def peerMesh : MeshManager :=
  (MeshManager.empty.addPeer ⟨"b", "10.10.10.2", 9440, peerUri, "https://10.10.10.2:9440", none⟩
    0).updateAgentCard peerUri ⟨peerUri, "key", none⟩

def sampleDeps : InboxApiDeps where
  inbox := .empty
  mesh := peerMesh
  ownAgentId := "spiffe://thinklocal/host/a/agent/codex"
  ownPrivateKeyPem := "private"
  agentRegistry := none
  pairingStore := none

def textPlatform : Platform where
  greater _ _ := some false
  bindOther _ := none
  sha256Hex key := key

/-- Nothing is decoded. -/
def silentCodec : Codec where
  encode _ := []
  decode _ := none
  deserializeSignedMessage _ := none
  signData _ _ := []
  verifySignature _ _ _ := none
  getTime _ := none

def sampleDraws : Draws := ⟨"message", "envelope", fun _ => "", 0, 0, 0⟩

/-- A message with a text. -/
def textRequest (target : String) : SendRequest where
  ip := "127.0.0.1"
  allowed := true
  body := some ⟨.string target, .string "text", .undefined, .undefined⟩

theorem fits_textRequest (target : String) : (textRequest target).Fits textPlatform
    ⟨.string target, .string "text", .undefined, .undefined⟩ target "text" where
  ip_local := rfl
  allowed := rfl
  body_eq := rfl
  fits := ⟨rfl, rfl, rfl, by decide, rfl, rfl, rfl⟩

end ThinkLocal.Inbox
