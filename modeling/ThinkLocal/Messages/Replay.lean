import ThinkLocal.Foundation.Machine
import ThinkLocal.Mesh.MessageHandler
import ThinkLocal.Messages.Messages

/-!
# The replay guard and its node

`/message` decodes an envelope, authorises its sender over the certificate, verifies it
under the key of the sender and asks the guard whether it was seen; otherwise it is handed
to `onMessage`.  The guard keeps one time for each text of sender and key and drops what is
older than two minutes whenever its timer fires.

The machine takes deliveries of any bytes by anyone and clean-ups at any time of a clock
that does not go back.  The mesh may change in between as it likes, so it comes with the
delivery.
-/

namespace ThinkLocal.Messages

open Foundation Js Mesh

/-! ## The guard -/

structure ReplayGuard where
  seen : InsertionMap String Nat

namespace ReplayGuard

/-- `${sender}:${idempotencyKey}`. -/
def joined (sender idempotencyKey : String) : String := sender ++ ":" ++ idempotencyKey

/-- Is it a replay?  If not, it is seen now. -/
def isReplay (guard : ReplayGuard) (sender idempotencyKey : String) (ttlMs : Number) (now : Nat) :
    Bool × ReplayGuard :=
  let key := joined sender idempotencyKey
  if (guard.seen.get key).any fun seenAt : Nat => (Number.ofInt (now - seenAt)).lt ttlMs then
    (true, guard)
  else (false, { guard with seen := guard.seen.set key now })

/-- Drops what is older than two minutes. -/
def cleanup (guard : ReplayGuard) (now : Nat) : ReplayGuard where
  seen := guard.seen.filter fun _ timestamp => ¬ (timestamp : Int) < now - 120000

end ReplayGuard

/-! ## The handler -/

/-- A request with the mesh and the clock readings that its handler meets. -/
structure Delivery where
  body : Bytes
  certSans : List String
  issuerFingerprint : Option String
  remoteAddress : Option String
  mesh : MeshManager
  resolvedAt : Nat
  /-- The reading of `decodeAndVerify`. -/
  verifiedAt : Nat
  /-- The reading of the guard. -/
  checkedAt : Nat

inductive Answer
  | emptyBody
  | tooLarge
  | invalidFormat
  | refused (reply : Reply)
  | duplicate (envelope : MessageEnvelope)
  /-- The bytes that were signed and what they decode to go to `onMessage`. -/
  | handed (bytes : Bytes) (envelope : MessageEnvelope)

/-- The message as the mesh sees it, with the sender of the unverified envelope. -/
def Delivery.inbound (C : Codec) (d : Delivery) (signed : SignedMessage)
    (envelope : MessageEnvelope) : InboundMessage where
  sender := envelope.sender
  certSans := d.certSans
  issuerFingerprint := d.issuerFingerprint
  remoteAddress := d.remoteAddress
  verify key :=
    match decodeAndVerify C signed key d.verifiedAt with
    | none => .threw
    | some none => .refused
    | some (some _) => .envelope

/-- The verified envelope is the decoded one, so it is not passed on. -/
def checkReplay (guard : ReplayGuard) (bytes : Bytes) (envelope : MessageEnvelope)
    (now : Nat) : ReplayGuard × Answer :=
  let (replay, guard) :=
    guard.isReplay envelope.sender envelope.idempotency_key envelope.ttl_ms now
  (guard, if replay then .duplicate envelope else .handed bytes envelope)

def postMessage (C : Codec) (peerIdAttestingCaFingerprints : List String) (guard : ReplayGuard)
    (d : Delivery) : ReplayGuard × Answer :=
  if d.body = [] then (guard, .emptyBody)
  else if 256 * 1024 < d.body.length then (guard, .tooLarge)
  else
    match C.deserializeSignedMessage d.body with
    | none => (guard, .invalidFormat)
    | some signed =>
        match C.decode signed.envelope with
        | none => (guard, .invalidFormat)
        | some envelope =>
            let message := d.inbound C signed envelope
            let handled := handleMessage peerIdAttestingCaFingerprints d.mesh message d.resolvedAt
            if handled.reply = .delivered then
              checkReplay guard signed.envelope envelope d.checkedAt
            else (guard, .refused handled.reply)

/-! ## The node -/

/-- An envelope that was handed to `onMessage`. -/
structure Handover where
  bytes : Bytes
  sender : String
  idempotencyKey : String
  handedAt : Nat

/-- A message that was answered as a duplicate, and whether its sender and key had been handed
over before. -/
structure DuplicateAnswer where
  sender : String
  idempotencyKey : String
  known : Bool

structure NodeState where
  guard : ReplayGuard
  clock : Nat
  /-- The last clean-up. -/
  cleanedAt : Nat
  handed : List Handover
  duplicates : List DuplicateAnswer

inductive NodeAction
  | deliver (d : Delivery)
  | cleanup (now : Nat)

/-- The answer as it is recorded. -/
def NodeState.record (s : NodeState) (now : Nat) : Answer → NodeState
  | .handed bytes envelope =>
      { s with handed := ⟨bytes, envelope.sender, envelope.idempotency_key, now⟩ :: s.handed }
  | .duplicate envelope =>
      let known := s.handed.any fun h =>
        h.sender = envelope.sender ∧ h.idempotencyKey = envelope.idempotency_key
      { s with
        duplicates := ⟨envelope.sender, envelope.idempotency_key, known⟩ :: s.duplicates }
  | _ => s

def nodeStep (C : Codec) (peerIdAttestingCaFingerprints : List String) (s : NodeState) :
    NodeAction → Option NodeState
  | .deliver d =>
      if s.clock ≤ d.resolvedAt ∧ d.resolvedAt ≤ d.verifiedAt ∧ d.verifiedAt ≤ d.checkedAt then
        let (guard, answer) := postMessage C peerIdAttestingCaFingerprints s.guard d
        some ({ s with guard, clock := d.checkedAt }.record d.checkedAt answer)
      else none
  | .cleanup now =>
      if s.clock ≤ now then
        some { s with guard := s.guard.cleanup now, clock := now, cleanedAt := now }
      else none

def replayNode (C : Codec) (peerIdAttestingCaFingerprints : List String) :
    Machine NodeState NodeAction where
  init := ⟨⟨.empty⟩, 0, 0, [], []⟩
  step := nodeStep C peerIdAttestingCaFingerprints

end ThinkLocal.Messages
