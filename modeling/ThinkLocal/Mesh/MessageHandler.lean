import ThinkLocal.Foundation.Machine
import ThinkLocal.Mesh.MeshManager

/-!
# The `/message` handler and the machine of a node's mesh

The handler of `agent-card.ts` from the decoded envelope on: it authorises the
sender over its certificate, marks the attested PeerID as verified, resolves the
sender's key and verifies the envelope under it.  The mark is to stay only if the
envelope verifies, so the failing exits roll it back; an exception ends in the
`catch`, which does not.

The machine runs all operations of a `MeshManager` in any order.  Health checks are
started for all active peers at once and settle one by one.  Beside the manager
it keeps the attestations: which PeerID was marked, without a rollback, by an
accepted message, and under which keys the envelope of that message is valid.
-/

namespace ThinkLocal.Mesh

open Foundation MeshManager

/-! ## The handler -/

/-- The outcome of `decodeAndVerify`: an envelope, `null`, or an exception. -/
inductive Verdict
  | envelope
  | refused
  | threw
  deriving DecidableEq, Repr

structure InboundMessage where
  sender : String
  /-- The SPIFFE URIs of the client certificate of an authorised socket. -/
  certSans : List String
  issuerFingerprint : Option String
  remoteAddress : Option String
  /-- `decodeAndVerify` of the message under a key. -/
  verify : String → Verdict

inductive Reply
  | senderNotAuthorized
  | issuerNotAttesting
  | unknownSender
  | invalidSignature
  /-- The envelope was handed on. -/
  | delivered
  | invalidFormat
  deriving DecidableEq, Repr

structure Handled where
  mesh : MeshManager
  reply : Reply
  /-- The PeerID that was handed to `markPeerIdVerified`, and the undo if it was `ok`. -/
  certVerification : Option (String × Option Undo)
  rolledBack : Bool

/-- `certVerification?.rollback()`. -/
def rollbackMark (m : MeshManager) (certVerification : Option (String × Option Undo)) :
    MeshManager :=
  match certVerification with
  | some (_, some undo) => m.rollback undo
  | _ => m

/-- The handler after the mark. -/
def verifyEnvelope (m : MeshManager) (message : InboundMessage) (now : Nat)
    (certVerification : Option (String × Option Undo)) : Handled :=
  match (m.resolvePeerPublicKey message.sender now).filter fun key => key ≠ "" with
  | none => ⟨rollbackMark m certVerification, .unknownSender, certVerification, true⟩
  | some senderKey =>
      match message.verify senderKey with
      | .envelope => ⟨m, .delivered, certVerification, false⟩
      | .refused => ⟨rollbackMark m certVerification, .invalidSignature, certVerification, true⟩
      | .threw => ⟨m, .invalidFormat, certVerification, false⟩

def handleMessage (peerIdAttestingCaFingerprints : List String) (m : MeshManager)
    (message : InboundMessage) (now : Nat) : Handled :=
  let canonicalCertSan := message.certSans.find? fun uri =>
    canonicalPrefix.toList <+: uri.toList
  let authz := authorizeHttpsSender message.sender canonicalCertSan
  if authz.ok = false then ⟨m, .senderNotAuthorized, none, false⟩
  else
    let attested := attestedPeerIdFromCert message.certSans message.issuerFingerprint
      peerIdAttestingCaFingerprints
    if authz.verifiedPeerId.isSome ∧ attested = none then ⟨m, .issuerNotAttesting, none, false⟩
    else
      match attested with
      | none => verifyEnvelope m message now none
      | some peerId =>
          let marked := m.markPeerIdVerified peerId (some message.sender) message.remoteAddress
          verifyEnvelope marked.1 message now (some (peerId, marked.2))

/-! ## The machine -/

structure MeshOptions where
  missedBeatsThreshold : Nat
  peerIdAttestingCaFingerprints : List String

/-- A mark that was not rolled back, and under which keys its envelope is valid. -/
structure Attestation where
  peerId : String
  valid : String → Bool

structure MeshState where
  mesh : MeshManager
  /-- The health checks that have not settled. -/
  checks : List (String × PeerRef)
  attestations : List Attestation

inductive MeshAction
  | addPeer (discovered : DiscoveredPeer) (now : Nat)
  | removePeer (agentId : String)
  | recordHeartbeat (agentId : String) (now : Nat)
  | updateAgentCard (agentId : String) (card : AgentCard)
  | confirmPeerDiscovery (agentId : String) (discovered : DiscoveredPeer) (now : Nat)
  | recordAuthenticatedSeen (entry : AuthenticatedSeenEntry) (now : Nat)
  | message (message : InboundMessage) (now : Nat)
  /-- The heartbeat timer fires. -/
  | tick
  /-- The health check with the given position settles. -/
  | checkSettles (position : Nat) (ok : Bool) (now : Nat)

namespace MeshState

def init : MeshState := ⟨.empty, [], []⟩

/-- The attestation that a handled message makes. -/
def attestation (handled : Handled) (message : InboundMessage) : List Attestation :=
  match handled.reply, handled.certVerification with
  | .delivered, some (peerId, some _) =>
      [⟨peerId, fun key => message.verify key = .envelope⟩]
  | _, _ => []

/-- Some message attested the pair. -/
def Attested (s : MeshState) (peerId key : String) : Prop :=
  ∃ a ∈ s.attestations, a.peerId = peerId ∧ a.valid key = true

instance (s : MeshState) (peerId key : String) : Decidable (s.Attested peerId key) :=
  inferInstanceAs (Decidable (∃ a ∈ s.attestations, a.peerId = peerId ∧ a.valid key = true))

end MeshState

def meshStep (opts : MeshOptions) (s : MeshState) : MeshAction → Option MeshState
  | .addPeer discovered now => some { s with mesh := s.mesh.addPeer discovered now }
  | .removePeer agentId => some { s with mesh := s.mesh.removePeer agentId }
  | .recordHeartbeat agentId now => some { s with mesh := s.mesh.recordHeartbeat agentId now }
  | .updateAgentCard agentId card => some { s with mesh := s.mesh.updateAgentCard agentId card }
  | .confirmPeerDiscovery agentId discovered now =>
      some { s with mesh := s.mesh.confirmPeerDiscovery agentId discovered now }
  | .recordAuthenticatedSeen entry now =>
      some { s with mesh := s.mesh.recordAuthenticatedSeen entry now }
  | .message message now =>
      let handled := handleMessage opts.peerIdAttestingCaFingerprints s.mesh message now
      some { s with
        mesh := handled.mesh
        attestations := s.attestations ++ MeshState.attestation handled message }
  | .tick =>
      -- While checks of the previous tick are pending, the timer does nothing.
      if s.checks = [] then some { s with checks := s.mesh.activePeers } else some s
  | .checkSettles position ok now =>
      s.checks[position]?.map fun check =>
        { s with
          mesh :=
            if ok then s.mesh.recordHeartbeat check.1 now
            else s.mesh.handleMissedBeat opts.missedBeatsThreshold check.2
          checks := s.checks.eraseIdx position }

def mesh (opts : MeshOptions) : Machine MeshState MeshAction where
  init := .init
  step := meshStep opts

end ThinkLocal.Mesh
