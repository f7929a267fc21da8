import ThinkLocal.Inbox.InboxApi

/-!
# Acknowledged delivery

A delivery may be reported as acknowledged only if the peer has signed an acknowledgement of
this message.  The route reads the status out of whatever message the peer has signed: it
looks neither at the type of the envelope nor at the message id of the payload.
-/

namespace ThinkLocal.Inbox

open Foundation Js Mesh Messages

variable {C : Codec} {P : Platform} {deps : InboxApiDeps} {request : SendRequest} {draws : Draws}
  {mesh : MeshManager} {message : Outbound} {outcome : FetchOutcome} {now : Int}

/-! ## Where a report comes from -/

/-- The message that goes out is the one of this call. -/
def SendStep.Carries (messageId : String) : SendStep → Prop
  | .done (.remote ..) => False
  | .done _ => True
  | .outbound message => message.message_id = messageId

theorem sendRemote_carries {target normalizedTo : String} {payload : AgentMessagePayload} :
    (sendRemote C deps target normalizedTo payload draws).Carries draws.messageId := by
  unfold sendRemote
  split
  case h_1 => trivial
  case h_2 =>
    split
    case isTrue => trivial
    case isFalse => rfl

theorem dispatch_carries {target normalizedTo : String} {payload : AgentMessagePayload} :
    (dispatch C P deps target normalizedTo payload draws).2.Carries draws.messageId := by
  unfold dispatch
  split
  case h_1 =>
    dsimp only
    split <;> trivial
  case h_2 =>
    split
    case isTrue => split <;> trivial
    case isFalse => exact sendRemote_carries

theorem sendBody_carries {body : SendBody} {target : String} :
    (sendBody C P deps body target draws).2.Carries draws.messageId := by
  unfold sendBody
  dsimp only
  split
  · trivial
  split
  · trivial
  split
  · trivial
  split
  · trivial
  split
  · trivial
  · trivial
  exact dispatch_carries

theorem send_carries : (send C P deps request draws).2.Carries draws.messageId := by
  unfold send
  dsimp only
  split
  · trivial
  split
  · trivial
  split
  · trivial
  split
  · trivial
  exact sendBody_carries

/-- A report about a peer comes from the peer's answer to the message of this call. -/
theorem postSend_eq_remote {messageId sentAt : String} {status : Nat} {verified : Bool}
    {ackStatus : Data}
    (h : (postSend C P deps request draws mesh outcome now).2 =
      .remote messageId sentAt status verified ackStatus) :
    ∃ message body, (send C P deps request draws).2 = .outbound message ∧
      message.message_id = draws.messageId ∧ outcome = .answered status body ∧
      readAck C (message.peerKey mesh) body now = (verified, ackStatus) := by
  have hcarries : (send C P deps request draws).2.Carries draws.messageId := send_carries
  unfold postSend at h
  cases hsend : send C P deps request draws with
  | mk inbox result =>
      rw [hsend] at h hcarries
      cases result with
      | done result =>
          dsimp only at h
          subst h
          exact hcarries.elim
      | outbound message =>
          cases outcome with
          | failed | refused => cases h
          | answered status' body =>
              obtain ⟨-, -, rfl, hverified, hstatus⟩ := SendResult.remote.inj h
              exact ⟨message, body, rfl, hcarries, rfl, Prod.ext hverified hstatus⟩

theorem readAck_verified {key : Option String} {body : Option Bytes} {ackStatus : Data} :
    readAck C key body now = (true, ackStatus) ↔
      ∃ k bytes signed envelope, key = some k ∧ body = some bytes ∧ bytes ≠ [] ∧
        C.deserializeSignedMessage bytes = some signed ∧
        decodeAndVerify C signed k now = some (some envelope) ∧
        (envelope.payload.get "status").getD .undefined = ackStatus := by
  unfold readAck
  constructor
  · intro h
    split at h
    case h_2 => cases h
    case h_1 k bytes hbody =>
      split at h
      case h_2 => cases h
      case h_1 envelope henvelope =>
        obtain ⟨signed, hsigned, hverify⟩ := Option.bind_eq_some_iff.mp henvelope
        obtain ⟨hbytes, hne⟩ := Option.filter_eq_some_iff.mp hbody
        obtain ⟨-, hstatus⟩ := Prod.mk.inj h
        exact ⟨k, bytes, signed, envelope, rfl, hbytes, of_decide_eq_true hne, hsigned, hverify,
          hstatus⟩
  · rintro ⟨k, bytes, signed, envelope, rfl, rfl, hne, hsigned, hverify, rfl⟩
    -- an empty body is none
    have hbody : ((some bytes).filter fun bytes => decide (bytes ≠ [])) = some bytes :=
      Option.filter_eq_some_iff.mpr ⟨rfl, decide_eq_true hne⟩
    rw [hbody]
    simp [hsigned, hverify]

/-! ## Acknowledgements -/

/-- The answer is a signed acknowledgement of the message with this status. -/
def Acknowledges (C : Codec) (key : Option String) (outcome : FetchOutcome) (messageId : String)
    (ackStatus : Data) : Prop :=
  ∃ k status bytes signed envelope, key = some k ∧ outcome = .answered status (some bytes) ∧
    C.deserializeSignedMessage bytes = some signed ∧
    C.verifySignature k signed.envelope signed.signature = some true ∧
    C.decode signed.envelope = some envelope ∧
    envelope.type = MessageType.AGENT_MESSAGE_ACK ∧
    envelope.payload.get "message_id" = some (.string messageId) ∧
    envelope.payload.get "status" = some ackStatus

/-- What is reported as acknowledged was acknowledged by the peer of the message. -/
def AckSound (C : Codec) (P : Platform) (deps : InboxApiDeps) (request : SendRequest)
    (draws : Draws) (mesh : MeshManager) (outcome : FetchOutcome) (now : Int) : Prop :=
  ∀ messageId sentAt status ackStatus,
    (postSend C P deps request draws mesh outcome now).2 =
        .remote messageId sentAt status true ackStatus →
      ∃ message, (send C P deps request draws).2 = .outbound message ∧
        Acknowledges C (message.peerKey mesh) outcome draws.messageId ackStatus

/-- If the answer is a message that the peer has signed and that has not expired, it is an
acknowledgement and has this message id. -/
def AnswersOnly (C : Codec) (key : Option String) (outcome : FetchOutcome) (messageId : String)
    (now : Int) : Prop :=
  ∀ k ∈ key, ∀ status bytes, outcome = .answered status (some bytes) → bytes ≠ [] →
    ∀ signed ∈ C.deserializeSignedMessage bytes, ∀ envelope,
      decodeAndVerify C signed k now = some (some envelope) →
        envelope.type = MessageType.AGENT_MESSAGE_ACK ∧
          envelope.payload.get "message_id" = some (.string messageId)

/-- A value with one field has every other field. -/
theorem get_isSome {value field : Data} {key : String} (h : value.get key = some field)
    (key' : String) : ∃ field', value.get key' = some field' := by
  cases value with
  | undefined | null => cases h
  | _ => exact ⟨_, rfl⟩

/-- Acknowledged delivery holds exactly for the peers that answer a message that goes out with
nothing signed but its acknowledgement. -/
theorem ack_sound_iff :
    AckSound C P deps request draws mesh outcome now ↔
      ∀ message, (send C P deps request draws).2 = .outbound message →
        AnswersOnly C (message.peerKey mesh) outcome draws.messageId now := by
  constructor
  · intro hsound message hsend k hk status bytes houtcome hne signed hsigned envelope hverify
    -- what was answered is verified as an acknowledgement, so the promise is about it
    have hread : readAck C (message.peerKey mesh) (some bytes) now =
        (true, (envelope.payload.get "status").getD .undefined) :=
      readAck_verified.mpr
        ⟨k, bytes, signed, envelope, hk, rfl, hne, hsigned, hverify, rfl⟩
    have hpost : (postSend C P deps request draws mesh outcome now).2 =
        .remote message.message_id message.sent_at status true
          ((envelope.payload.get "status").getD .undefined) := by
      have hpair : send C P deps request draws =
          ((send C P deps request draws).1, .outbound message) := Prod.ext rfl hsend
      rw [postSend, hpair, houtcome]
      simp [finishSend, hread]
    obtain ⟨message', hsend', k', status', bytes', signed', envelope', hk', houtcome', hsigned',
      -, hdecode', htype, hid, -⟩ := hsound _ _ _ _ hpost
    obtain rfl := SendStep.outbound.inj (hsend.symm.trans hsend')
    obtain rfl := Option.some.inj (Eq.trans (Eq.symm hk) hk')
    obtain ⟨-, hbytes⟩ := FetchOutcome.answered.inj (houtcome.symm.trans houtcome')
    obtain rfl := Option.some.inj hbytes
    obtain rfl := Option.some.inj (Eq.trans (Eq.symm hsigned) hsigned')
    obtain ⟨-, hdecode, -⟩ := (decodeAndVerify_eq_some C).mp hverify
    obtain rfl := Option.some.inj (hdecode.symm.trans hdecode')
    exact ⟨htype, hid⟩
  · intro honly messageId sentAt status ackStatus hpost
    -- only a verified answer is told as acknowledged
    obtain ⟨message, body, hsend, -, rfl, hread⟩ := postSend_eq_remote hpost
    obtain ⟨k, bytes, signed, envelope, hk, rfl, hne, hsigned, hverify, rfl⟩ :=
      readAck_verified.mp hread
    obtain ⟨htype, hid⟩ :=
      honly message hsend k hk status bytes rfl hne signed hsigned envelope hverify
    obtain ⟨hvalid, hdecode, -⟩ := (decodeAndVerify_eq_some C).mp hverify
    obtain ⟨ackStatus, hstatus⟩ := get_isSome hid "status"
    refine ⟨message, hsend, k, status, bytes, signed, envelope, hk, rfl, hsigned, hvalid, hdecode,
      htype, hid, ?_⟩
    rw [hstatus]
    rfl

/-! A peer whose every answer is the acknowledgement of an earlier message. -/

def lateCodec : Codec where
  encode _ := []
  decode _ := some
    { id := "ack", type := MessageType.AGENT_MESSAGE_ACK, correlation_id := "ack"
      sender := "spiffe://thinklocal/host/b/agent/codex", timestamp := "", ttl_ms := .ofInt 30000
      idempotency_key := "ack"
      payload := .object [("message_id", .string "earlier"), ("status", .string "delivered")] }
  deserializeSignedMessage body := some ⟨body, []⟩
  signData _ _ := []
  verifySignature key _ _ := some (key = "key")
  getTime _ := none

/-- The acknowledgement of another message is reported for this one. -/
theorem ack_unsound :
    ¬ AckSound lateCodec textPlatform sampleDeps (textRequest peerUri) sampleDraws peerMesh
      (.answered 200 (some [0])) 0 := by
  intro h
  have hpost : (postSend lateCodec textPlatform sampleDeps (textRequest peerUri) sampleDraws
      peerMesh (.answered 200 (some [0])) 0).2 =
        .remote "message" (isoText 0) 200 true (.string "delivered") := by rfl
  obtain ⟨message, -, k, status, bytes, signed, envelope, -, -, -, -, hdecode, -, hid, -⟩ :=
    h _ _ _ _ hpost
  obtain rfl := Option.some.inj hdecode
  have hsame : "earlier" = sampleDraws.messageId := Data.string.inj (Option.some.inj hid)
  revert hsame
  decide

end ThinkLocal.Inbox
