import ThinkLocal.Inbox.InboxApi
import ThinkLocal.Inbox.SignedOrder

/-!
# Receiving

The case `AGENT_MESSAGE` of `onMessage` in `index.ts`.  A message for this daemon from a
paired sender is stored, and every message is answered by a signed acknowledgement.
-/

namespace ThinkLocal.Inbox

open Foundation Js Messages Pairing Spiffe

structure Receiver where
  inbox : AgentInbox
  pairingStore : PairingStore
  selfIdentityUri : String
  privateKeyPem : String

structure AgentMessageAckPayload where
  message_id : Data
  received_at : String
  status : String
  reason : Option String

/-- The acknowledgement as it is encoded. -/
def AgentMessageAckPayload.data (ack : AgentMessageAckPayload) : Data :=
  .object [("message_id", ack.message_id), ("received_at", .string ack.received_at),
    ("status", .string ack.status), ("reason", (ack.reason.map Data.string).getD .undefined)]

/-- The readings of the clock and the id that is drawn for the answer. -/
structure Readings where
  verifiedAt : Int
  storedAt : Int
  receivedAt : Int
  ackId : String
  ackAt : Int

variable (C : Codec) (P : Platform)

def senderIsPaired (receiver : Receiver) (sender senderPublicKey : String) : Bool :=
  receiver.pairingStore.isPaired (.string sender) ||
    receiver.pairingStore.isPairedByPublicKey P.sha256Hex senderPublicKey

/-- What is stored about the order in a body. -/
def orderContext (body : Data) (sender senderPublicKey : String) (now : Int) :
    Option OrderContext :=
  match classifyInboundOrder C body sender senderPublicKey now with
  | .plain => none
  | .invalid _ => some .invalid
  | .order bytes orderId =>
      some (.valid bytes sender (orderKeyId P senderPublicKey) senderPublicKey orderId)

/-- Status and reason of the acknowledgement of a stored message; a duplicate has arrived. -/
def ackOf : StoreResult → String × Option String
  | .rejected reason => ("rejected", some reason)
  | .delivered _ => ("delivered", none)
  | .duplicate _ => ("delivered", some "already in inbox")

/-- The inbox and the acknowledgement; `none` where the handler throws. -/
def receive (receiver : Receiver) (envelope : MessageEnvelope) (senderPublicKey : String)
    (r : Readings) : Option (AgentInbox × AgentMessageAckPayload) :=
  (AgentMessagePayload.ofData envelope.payload).bind fun msg =>
    let ack (inbox : AgentInbox) (status : String) (reason : Option String) :
        AgentInbox × AgentMessageAckPayload :=
      (inbox, ⟨msg.message_id, isoText r.receivedAt, status, reason⟩)
    if msg.target.text? ≠ some receiver.selfIdentityUri then
      some (ack receiver.inbox "rejected" (some "recipient mismatch"))
    else if ¬ senderIsPaired P receiver envelope.sender senderPublicKey then
      some (ack receiver.inbox "rejected" (some "sender not in pairing store"))
    else
      (receiver.inbox.store P envelope.sender msg
        (orderContext C P msg.body envelope.sender senderPublicKey r.verifiedAt)
        r.storedAt).map fun (inbox, result) => ack inbox (ackOf result).1 (ackOf result).2

/-- The case `AGENT_MESSAGE`. -/
def onAgentMessage (receiver : Receiver) (envelope : MessageEnvelope) (senderPublicKey : String)
    (r : Readings) : Option (AgentInbox × SignedMessage) :=
  (receive C P receiver envelope senderPublicKey r).map fun (inbox, ack) =>
    (inbox, encodeAndSign C
      (createEnvelope MessageType.AGENT_MESSAGE_ACK receiver.selfIdentityUri ack.data
        (some envelope.correlation_id) none r.ackId r.ackAt) receiver.privateKeyPem)

/-! ## Answers -/

variable {C P} {receiver : Receiver} {envelope : MessageEnvelope} {senderPublicKey : String}
  {r : Readings} {msg : AgentMessagePayload}

theorem receive_of_mismatch (hmsg : AgentMessagePayload.ofData envelope.payload = some msg)
    (hother : msg.target.text? ≠ some receiver.selfIdentityUri) :
    receive C P receiver envelope senderPublicKey r =
      some (receiver.inbox,
        ⟨msg.message_id, isoText r.receivedAt, "rejected", some "recipient mismatch"⟩) := by
  rw [receive, hmsg, Option.bind_some]
  exact if_pos hother

theorem receive_of_match (hmsg : AgentMessagePayload.ofData envelope.payload = some msg)
    (hself : msg.target.text? = some receiver.selfIdentityUri)
    (hpaired : senderIsPaired P receiver envelope.sender senderPublicKey = true) :
    receive C P receiver envelope senderPublicKey r =
      (receiver.inbox.store P envelope.sender msg
        (orderContext C P msg.body envelope.sender senderPublicKey r.verifiedAt)
        r.storedAt).map fun (inbox, result) =>
          (inbox, ⟨msg.message_id, isoText r.receivedAt, (ackOf result).1, (ackOf result).2⟩) := by
  rw [receive, hmsg, Option.bind_some]
  dsimp only
  rw [if_neg (not_not.mpr hself), if_neg (not_not.mpr hpaired)]

end ThinkLocal.Inbox
