import ThinkLocal.Js.Data
import ThinkLocal.Js.Date
import ThinkLocal.Js.Number

/-!
# Signed messages

`messages.ts`: an envelope is encoded as CBOR and signed, and envelope and signature
travel as a CBOR map.  The encoding, the signature scheme and the parser of dates are
given from outside; a `none` stands for an exception of theirs.
-/

namespace ThinkLocal.Messages

open Js

namespace MessageType

def AGENT_MESSAGE : String := "AGENT_MESSAGE"

def AGENT_MESSAGE_ACK : String := "AGENT_MESSAGE_ACK"

def ORDER : String := "ORDER"

end MessageType

structure MessageEnvelope where
  id : String
  type : String
  sender : String
  correlation_id : String
  timestamp : String
  ttl_ms : Number
  idempotency_key : String
  payload : Data

structure SignedMessage where
  envelope : Bytes
  signature : Bytes

/-- What the messages take from libraries. -/
structure Codec where
  encode : MessageEnvelope → Bytes
  decode : Bytes → Option MessageEnvelope
  deserializeSignedMessage : Bytes → Option SignedMessage
  signData : String → Bytes → Bytes
  verifySignature : String → Bytes → Bytes → Option Bool
  /-- `new Date(timestamp).getTime()`, `none` for `NaN`. -/
  getTime : String → Option Int

/-- `new Date(now).toISOString()` for a reading of the clock. -/
def isoText (now : Int) : String := String.ofList ((toISOString now).getD [])

/-- The id is drawn at random. -/
def createEnvelope (type sender : String) (payload : Data) (correlation_id : Option String)
    (ttl_ms : Option Int) (id : String) (now : Int) : MessageEnvelope where
  id := id
  type := type
  sender := sender
  correlation_id := correlation_id.getD id
  timestamp := isoText now
  ttl_ms := .ofInt (ttl_ms.getD 30000)
  idempotency_key := id
  payload := payload

variable (C : Codec)

def encodeAndSign (envelope : MessageEnvelope) (privateKeyPem : String) : SignedMessage where
  envelope := C.encode envelope
  signature := C.signData privateKeyPem (C.encode envelope)

/-- The time to live is over; without a valid date it never is. -/
def expired (envelope : MessageEnvelope) (now : Int) : Bool :=
  (Number.ofInt 0).lt envelope.ttl_ms &&
    (C.getTime envelope.timestamp).any fun created => envelope.ttl_ms.lt (.ofInt (now - created))

/-- `none` where it throws, `some none` for `null`. -/
def decodeAndVerify (signed : SignedMessage) (publicKeyPem : String) (now : Int) :
    Option (Option MessageEnvelope) :=
  (C.verifySignature publicKeyPem signed.envelope signed.signature).bind fun valid =>
    if valid then
      (C.decode signed.envelope).map fun envelope =>
        if expired C envelope now then none else some envelope
    else some none

/-- What is verified was signed, is decoded and has not expired. -/
theorem decodeAndVerify_eq_some {signed : SignedMessage} {publicKeyPem : String} {now : Int}
    {envelope : MessageEnvelope} :
    decodeAndVerify C signed publicKeyPem now = some (some envelope) ↔
      C.verifySignature publicKeyPem signed.envelope signed.signature = some true ∧
        C.decode signed.envelope = some envelope ∧ expired C envelope now = false := by
  unfold decodeAndVerify
  cases C.verifySignature publicKeyPem signed.envelope signed.signature with
  | none => simp
  | some valid =>
      cases valid with
      | false => simp
      | true =>
          cases C.decode signed.envelope with
          | none => simp
          | some decoded =>
              by_cases hexpired : expired C decoded now = true
              · have hne : decoded = envelope → ¬ expired C envelope now = false := by
                  rintro rfl
                  simp [hexpired]
                simpa [hexpired] using hne
              · rw [Bool.not_eq_true] at hexpired
                constructor
                · intro h
                  obtain rfl : decoded = envelope := by simpa [hexpired] using h
                  exact ⟨rfl, rfl, hexpired⟩
                · rintro ⟨-, h, -⟩
                  obtain rfl := Option.some.inj h
                  simp [hexpired]

end ThinkLocal.Messages
