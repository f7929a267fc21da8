import ThinkLocal.Inbox.AgentMessage

/-!
# Addressing an instance of another daemon

The sender looks up the peer by the normalised target and leaves the target in the payload as
it was given.  The receiver compares this text with its own identity, so a target with an
instance gets through to the daemon and is refused there.
-/

namespace ThinkLocal.Inbox

open Foundation Js Messages Pairing Spiffe

variable {C : Codec} {P : Platform} {deps : InboxApiDeps} {request : SendRequest}
  {body : SendBody} {draws : Draws} {message : Outbound} {receiver : Receiver} {r : Readings}
  {target bodyStr senderPublicKey : String}

/-- The answer of the receiver to what is on the wire. -/
def answerTo (C : Codec) (P : Platform) (receiver : Receiver) (message : Outbound)
    (senderPublicKey : String) (r : Readings) : Option (AgentInbox × AgentMessageAckPayload) :=
  (C.decode message.signed.envelope).bind fun envelope =>
    receive C P receiver envelope senderPublicKey r

/-- The message is in the inbox and acknowledged as delivered, or it was too large. -/
def Arrives (answer : Option (AgentInbox × AgentMessageAckPayload))
    (messageId fromAgent normalizedTo : String) (toInstance : Option String) (bodyStr : String) :
    Prop :=
  ∃ inbox ack, answer = some (inbox, ack) ∧
    ((ack.status = "delivered" ∧
        ∃ row ∈ inbox.messages, row.Carries messageId fromAgent normalizedTo toInstance bodyStr) ∨
      (ack.status = "rejected" ∧
        ack.reason = some ("body exceeds " ++ toString MAX_MESSAGE_BYTES ++ " bytes")))

/-- A message that is handed to the inbox arrives if its id is new, and otherwise if the row that
has its id is this message. -/
theorem arrives_stored_iff {inbox : AgentInbox} {payload : AgentMessagePayload}
    {messageId fromAgent normalizedTo receivedAt : String} {order : Option OrderContext}
    {now : Int} (hfits : payload.Fits P bodyStr messageId)
    (htarget : storedTarget payload.target = .ok (normalizedTo, none)) :
    Arrives ((inbox.store P fromAgent payload order now).map fun (inbox, result) =>
        (inbox, ⟨payload.message_id, receivedAt, (ackOf result).1, (ackOf result).2⟩))
        messageId fromAgent normalizedTo none bodyStr ↔
      ∀ row, inbox.findByMessageId messageId = some row →
        row.Carries messageId fromAgent normalizedTo none bodyStr := by
  cases hfind : inbox.findByMessageId messageId with
  | none =>
      obtain ⟨stored, row, hstore, hmessages, hrow⟩ := AgentInbox.store_of_new hfits hfind htarget
      rw [hstore]
      refine iff_of_true ⟨stored, _, rfl, .inl ⟨rfl, row, ?_, hrow.carries⟩⟩ (by simp)
      rw [hmessages]
      exact List.mem_append_right _ List.mem_cons_self
  | some existing =>
      obtain ⟨hmem, hid⟩ := AgentInbox.findByMessageId_eq_some hfind
      rw [AgentInbox.store_of_duplicate hfits.admissible hfind]
      constructor
      · rintro ⟨stored, ack, hsome, ⟨-, row, hrow, hcarries⟩ | ⟨hrejected, -⟩⟩
        · obtain ⟨rfl, -⟩ := Prod.mk.inj (Option.some.inj hsome)
          rintro other hother
          obtain rfl := Option.some.inj hother
          -- The message id is that of one row only.
          have hsame : existing = row := by
            refine List.inj_on_of_nodup_map inbox.unique hmem hrow ?_
            rw [hid, hcarries.message_id]
          rw [hsame]
          exact hcarries
        · obtain ⟨-, rfl⟩ := Prod.mk.inj (Option.some.inj hsome)
          have hdifferent : ¬ ("delivered" : String) = "rejected" := by decide
          exact absurd hrejected hdifferent
      · intro hcarries
        exact ⟨inbox, _, rfl, .inl ⟨rfl, existing, hmem, hcarries existing rfl⟩⟩

theorem not_arrives_mismatch {inbox : AgentInbox} {message_id : Data}
    {messageId fromAgent normalizedTo receivedAt : String} {toInstance : Option String} :
    ¬ Arrives (some (inbox, ⟨message_id, receivedAt, "rejected", some "recipient mismatch"⟩))
      messageId fromAgent normalizedTo toInstance bodyStr := by
  rintro ⟨stored, ack, hsome, ⟨hdelivered, -⟩ | ⟨-, hreason⟩⟩
  · obtain ⟨-, rfl⟩ := Prod.mk.inj (Option.some.inj hsome)
    have hdifferent : ¬ ("rejected" : String) = "delivered" := by decide
    exact absurd hdelivered hdifferent
  · obtain ⟨-, rfl⟩ := Prod.mk.inj (Option.some.inj hsome)
    have hdifferent : ¬ some "recipient mismatch" =
        some ("body exceeds " ++ toString MAX_MESSAGE_BYTES ++ " bytes") := by decide
    exact absurd hreason hdifferent

/-- A message for a paired daemon arrives exactly if its target has no instance, unless the
receiver has another message with its id. -/
theorem cross_node_delivery_iff {toInstance : Option String}
    (hfits : request.Fits P body target bodyStr) (hid : draws.messageId ≠ "")
    (hsent : (send C P deps request draws).2 = .outbound message)
    (hwire : C.decode message.signed.envelope = some message.envelope)
    (hreceiver : normalizeAgentId target = .ok receiver.selfIdentityUri)
    (hinstance : getAgentInstance target = .ok toInstance)
    (hpaired : senderIsPaired P receiver deps.ownAgentId senderPublicKey = true) :
    Arrives (answerTo C P receiver message senderPublicKey r) draws.messageId deps.ownAgentId
        receiver.selfIdentityUri toInstance bodyStr ↔
      toInstance = none ∧
        ∀ row, receiver.inbox.findByMessageId draws.messageId = some row →
          row.Carries draws.messageId deps.ownAgentId receiver.selfIdentityUri none bodyStr := by
  obtain ⟨parsed, hparse, hdaemon⟩ := normalizeAgentId_eq_ok.mp hreceiver
  obtain ⟨parsed', hparse', htail⟩ := getAgentInstance_eq_ok.mp hinstance
  obtain rfl := Except.ok.inj (hparse.symm.trans hparse')
  have henvelope := outbound_of_send hfits hparse hsent
  have hmsg : AgentMessagePayload.ofData message.envelope.payload = some (body.payload draws) := by
    rw [henvelope]
    exact AgentMessagePayload.ofData_data _
  have hsender : message.envelope.sender = deps.ownAgentId := by
    rw [henvelope]
    rfl
  have htext : (body.payload draws).target.text? = some target := by
    show body.target.text? = some target
    rw [hfits.fits.target_eq]
    rfl
  have hanswer : answerTo C P receiver message senderPublicKey r =
      receive C P receiver message.envelope senderPublicKey r := by
    rw [answerTo, hwire]
    rfl
  -- the target is the receiving daemon itself exactly if it names no instance
  have hown : target = receiver.selfIdentityUri ↔ toInstance = none := by
    rw [← htail, ← daemon_eq_iff hparse, hdaemon, eq_comm]
  rw [hanswer]
  by_cases hself : target = receiver.selfIdentityUri
  · have hmatch : (body.payload draws).target.text? = some receiver.selfIdentityUri := by
      rw [htext, hself]
    have hpaired' : senderIsPaired P receiver message.envelope.sender senderPublicKey = true := by
      rw [hsender]
      exact hpaired
    rw [receive_of_match hmsg hmatch hpaired', hsender, hown.mp hself, and_iff_right rfl]
    exact arrives_stored_iff (hfits.fits.payload hid) (by
      show storedTarget body.target = _
      rw [hfits.fits.target_eq, storedTarget_of_parse hparse, hdaemon, htail, hown.mp hself])
  · have hmismatch : (body.payload draws).target.text? ≠ some receiver.selfIdentityUri := by
      rw [htext]
      exact fun h => hself (Option.some.inj h)
    rw [receive_of_mismatch hmsg hmismatch]
    constructor
    · intro harrives
      exact absurd harrives not_arrives_mismatch
    · rintro ⟨hnone, -⟩
      exact absurd (hown.mpr hnone) hself

/-! A daemon sends a text to the peer that it knows, and to an instance of it. -/

/-- The envelope of the text. -/
def wireEnvelope (target : String) : MessageEnvelope :=
  createEnvelope MessageType.AGENT_MESSAGE sampleDeps.ownAgentId
    (SendBody.payload ⟨.string target, .string "text", .undefined, .undefined⟩ sampleDraws).data
    none (some 60000) "envelope" 0

/-- Nothing but this envelope is on the wire. -/
def wireCodec (target : String) : Codec :=
  { silentCodec with decode := fun _ => some (wireEnvelope target) }

def sampleReceiver : Receiver where
  inbox := .empty
  pairingStore := PairingStore.empty.addPeer
    ⟨.string sampleDeps.ownAgentId, .string "key", .null, .null, 0, .null⟩
  selfIdentityUri := peerUri
  privateKeyPem := "private"

def sampleReadings : Readings := ⟨0, 0, 0, "ack", 0⟩

/-- The message that goes out for a target. -/
def sampleMessage (target : String) : Outbound where
  url := "https://10.10.10.2:9440/message"
  target := target
  normalizedTo := peerUri
  message_id := "message"
  sent_at := isoText 0
  envelope := wireEnvelope target
  signed := ⟨[], []⟩

/-- The text for the daemon arrives. -/
theorem cross_node_delivery_daemon :
    Arrives (answerTo (wireCodec peerUri) textPlatform sampleReceiver (sampleMessage peerUri) "key"
      sampleReadings) "message" sampleDeps.ownAgentId peerUri none "text" := by
  have hsent : (send (wireCodec peerUri) textPlatform sampleDeps (textRequest peerUri)
      sampleDraws).2 = .outbound (sampleMessage peerUri) := by rfl
  refine Iff.mpr (cross_node_delivery_iff (fits_textRequest _) (by decide) hsent (by rfl) (by rfl)
    (by rfl) (by decide)) ⟨rfl, ?_⟩
  intro row hrow
  cases hrow

/-- The text for an instance is refused. -/
theorem cross_node_delivery_refused :
    (send (wireCodec (peerUri ++ "/instance/alpha")) textPlatform sampleDeps
        (textRequest (peerUri ++ "/instance/alpha")) sampleDraws).2 =
        .outbound (sampleMessage (peerUri ++ "/instance/alpha")) ∧
      normalizeAgentId (peerUri ++ "/instance/alpha") = .ok sampleReceiver.selfIdentityUri ∧
      senderIsPaired textPlatform sampleReceiver sampleDeps.ownAgentId "key" = true ∧
      answerTo (wireCodec (peerUri ++ "/instance/alpha")) textPlatform sampleReceiver
        (sampleMessage (peerUri ++ "/instance/alpha")) "key" sampleReadings =
        some (.empty, ⟨.string "message", isoText 0, "rejected", some "recipient mismatch"⟩) :=
  ⟨by rfl, by rfl, by decide, by rfl⟩

end ThinkLocal.Inbox
