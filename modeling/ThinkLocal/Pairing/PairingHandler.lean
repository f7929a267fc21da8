import ThinkLocal.Js.Data
import ThinkLocal.Pairing.PairingStore

/-!
# The pairing routes

Two daemons are paired with a PIN that one of them shows and the user types in at the
other.  Four routes share one session: `/pairing/start` makes the PIN, `/pairing/init`
checks it and derives a key, `/pairing/confirm` takes the data of the peer sealed under
that key, `/pairing/status` shows where the session is.  No handler awaits anything, so
each request is one step.

SPAKE2, the ciphers and hashes of the platform and its JSON are given from outside; an
exception of theirs is a `none`.
-/

namespace ThinkLocal.Pairing

open Foundation Js

/-- A sealed text as it stands in a body. -/
structure Sealed where
  ciphertext : Plain
  iv : Plain
  tag : Plain

structure PairingPayload where
  agentId : Plain
  publicKeyPem : Plain
  caCertPem : Plain
  hostname : Plain
  fingerprint : Plain

/-- What the routes take from libraries. -/
structure Library (Verifier : Type) where
  /-- `new suite.Verifier(pin, ids..)`, with the random number that it draws. -/
  verifier : String → String → String → Nat → Verifier
  /-- The own message in base64; the instance changes, also where it throws. -/
  generate : Verifier → Verifier × Option String
  finish : Verifier → Bytes → Verifier × Option Bytes
  /-- `Buffer.from(value, 'base64')`. -/
  bufferFrom : Plain → Option Bytes
  sha256 : Bytes → Bytes
  sha256Hex : String → String
  /-- AES-256-GCM with a key and an initialisation vector. -/
  aesGcmSeal : Bytes → Bytes → String → Sealed
  aesGcmOpen : Bytes → Bytes → Bytes → Plain → Option String
  stringify : PairingPayload → String
  /-- `JSON.parse`, `none` also for the values that have no fields to read. -/
  parse : String → Option PairingPayload

variable {Verifier : Type} (L : Library Verifier)

/-- `String(randomInt(100_000, 999_999))`. -/
def generatePin (draw : Nat) : String := toString (100000 + draw % 899999)

def deriveKey (sharedSecret : Bytes) (context : String) : Bytes :=
  L.sha256 (sharedSecret ++ context.toUTF8.toList)

def decryptWithKey (key : Bytes) (body : Sealed) : Option String :=
  (L.bufferFrom body.iv).bind fun iv =>
    (L.bufferFrom body.tag).bind fun tag => L.aesGcmOpen key iv tag body.ciphertext

/-! ## The state of the routes -/

inductive SessionState
  | waiting
  | handshake
  | completed
  | failed
deriving DecidableEq

structure PairingSession (Verifier : Type) where
  pin : String
  state : SessionState
  createdAt : Int
  spakeInstance : Verifier
  sharedKey : Option Bytes
  peerAgentId : Option Plain

structure IpFailure where
  count : Nat
  lastAttempt : Int

structure HandlerState (Verifier : Type) where
  activeSession : Option (PairingSession Verifier)
  failedAttempts : Nat
  ipFailures : InsertionMap String IpFailure
  store : PairingStore

/-- `PairingHandlerDeps`, as far as the routes read it. -/
structure Deps where
  agentId : String
  hostname : String
  publicKeyPem : String
  caCertPem : String
  fingerprint : String

def MAX_FAILURES_PER_IP : Nat := 10

def IP_LOCKOUT_MS : Int := 15 * 60000

def SESSION_TIMEOUT_MS : Int := 5 * 60000

/-! ## What the routes answer -/

inductive PairingError
  | alreadyInProgress
  | tooManyAttempts
  | missingFields
  | noLocalSession
  | sessionInvalidated
  | wrongPin
  | handshakeFailed
  | noActiveSession
  | fingerprintMismatch
  | confirmationFailed
deriving DecidableEq

def PairingError.code : PairingError → Nat
  | alreadyInProgress | noLocalSession => 409
  | tooManyAttempts => 429
  | missingFields | noActiveSession => 400
  | sessionInvalidated | wrongPin | handshakeFailed | fingerprintMismatch | confirmationFailed =>
      403

def PairingError.message : PairingError → String
  | alreadyInProgress => "Pairing already in progress"
  | tooManyAttempts => "Too many attempts. Try again later."
  | missingFields => "Missing required fields"
  | noLocalSession => "No local pairing session active. Call /pairing/start first."
  | sessionInvalidated => "Too many failed attempts. Session invalidated."
  | wrongPin => "Wrong PIN"
  | handshakeFailed => "Handshake failed — wrong PIN?"
  | noActiveSession => "No active pairing session"
  | fingerprintMismatch => "Fingerprint mismatch"
  | confirmationFailed => "Confirmation failed — decryption error"

/-- State, peer and age in seconds. -/
structure SessionView where
  state : SessionState
  peer : Option Plain
  ageSeconds : Int

inductive Response
  | started (pin : String) (expiresInSeconds : Int) (message : String)
  | alreadyPaired
  | handshake (spakeMessage : String) (encryptedPayload : Sealed)
  | paired (peerAgentId : Plain)
  | status (activeSession : Option SessionView) (pairedPeers : List PairedPeer)
  | error (error : PairingError)
  /-- The handler throws outside of its `try`. -/
  | uncaught

/-! ## Limits -/

/-- Is the address locked?  A lock that is over is deleted. -/
def isIpLocked (ipFailures : InsertionMap String IpFailure) (ip : String) (now : Int) :
    Bool × InsertionMap String IpFailure :=
  match ipFailures.get ip with
  | none => (false, ipFailures)
  | some entry =>
      if MAX_FAILURES_PER_IP ≤ entry.count then
        if now - entry.lastAttempt < IP_LOCKOUT_MS then (true, ipFailures)
        else (false, ipFailures.delete ip)
      else (false, ipFailures)

def recordIpFailure (ipFailures : InsertionMap String IpFailure) (ip : String) (now : Int) :
    InsertionMap String IpFailure :=
  let count := ((ipFailures.get ip).map IpFailure.count).getD 0
  let ipFailures := ipFailures.set ip ⟨count + 1, now⟩
  if 100 < ipFailures.size then
    ipFailures.filter fun _ entry => ¬ IP_LOCKOUT_MS < now - entry.lastAttempt
  else ipFailures

def cleanExpiredSession (s : HandlerState Verifier) (now : Int) : HandlerState Verifier :=
  match s.activeSession with
  | some session =>
      if SESSION_TIMEOUT_MS < now - session.createdAt then { s with activeSession := none } else s
  | none => s

/-! ## POST /pairing/start -/

def start (deps : Deps) (s : HandlerState Verifier) (now : Int) (draw seed : Nat) :
    HandlerState Verifier × Response :=
  let s := cleanExpiredSession s now
  if s.activeSession.any (·.state = .waiting) then (s, .error .alreadyInProgress)
  else
    let pin := generatePin draw
    let session : PairingSession Verifier :=
      { pin, state := .waiting, createdAt := now
        spakeInstance := L.verifier pin "thinklocal-mesh" deps.agentId seed
        sharedKey := none, peerAgentId := none }
    ({ s with activeSession := some session },
      .started pin (SESSION_TIMEOUT_MS / 1000) "PIN dem Benutzer des anderen Nodes mitteilen")

/-! ## POST /pairing/init -/

structure InitBody where
  agent_id : Plain
  pin : Plain
  spake_message : Plain

/-- No field is missing. -/
def InitBody.complete (body : InitBody) : Bool :=
  body.agent_id.truthy && body.pin.truthy && body.spake_message.truthy

/-- The failed attempt counts for the session and for the address; the third ends the session. -/
def rejectPin (s : HandlerState Verifier) (clientIp : String) (now : Int) :
    HandlerState Verifier × Response :=
  let ipFailures := recordIpFailure s.ipFailures clientIp now
  if 3 ≤ s.failedAttempts + 1 then
    ({ s with activeSession := none, failedAttempts := 0, ipFailures }, .error .sessionInvalidated)
  else ({ s with failedAttempts := s.failedAttempts + 1, ipFailures }, .error .wrongPin)

/-- The SPAKE2 exchange with the message of the initiator: the instance after it, and, unless
something threw, the own message and the shared key. -/
def exchange (verifier : Verifier) (spakeMessage : Plain) : Verifier × Option (String × Bytes) :=
  match L.generate verifier with
  | (verifier, none) => (verifier, none)
  | (verifier, some outMessage) =>
      match L.bufferFrom spakeMessage with
      | none => (verifier, none)
      | some peerMessage =>
          match L.finish verifier peerMessage with
          | (verifier, none) => (verifier, none)
          | (verifier, some sharedSecret) =>
              (verifier, some (outMessage, deriveKey L sharedSecret "thinklocal-pairing-v1"))

/-- The PIN is right and the agent is new. -/
def handshake (deps : Deps) (s : HandlerState Verifier) (session : PairingSession Verifier)
    (now : Int) (iv : Bytes) (body : InitBody) : HandlerState Verifier × Response :=
  match exchange L session.spakeInstance body.spake_message with
  | (verifier, none) =>
      -- The session goes on with the instance as the exception left it.
      ({ s with
          failedAttempts := 0
          activeSession := some { session with spakeInstance := verifier } },
        .error .handshakeFailed)
  | (verifier, some (outMessage, sharedKey)) =>
      let payload : PairingPayload :=
        { agentId := .string deps.agentId, publicKeyPem := .string deps.publicKeyPem
          caCertPem := .string deps.caCertPem, hostname := .string deps.hostname
          fingerprint := .string deps.fingerprint }
      let next : PairingSession Verifier :=
        { pin := session.pin, state := .handshake, createdAt := now, spakeInstance := verifier
          sharedKey := some sharedKey, peerAgentId := some body.agent_id }
      ({ s with failedAttempts := 0, activeSession := some next },
        .handshake outMessage (L.aesGcmSeal sharedKey iv (L.stringify payload)))

/-- The PIN is compared and, if it is right, the handshake made. -/
def checkPin (deps : Deps) (s : HandlerState Verifier) (session : PairingSession Verifier)
    (clientIp : String) (now : Int) (iv : Bytes) (body : InitBody) :
    HandlerState Verifier × Response :=
  if body.pin ≠ .string session.pin then rejectPin s clientIp now
  else if s.store.isPaired body.agent_id then (s, .alreadyPaired)
  else handshake L deps s session now iv body

/-- The fields are checked and then the session; `none` for a body whose fields cannot be read. -/
def checkBody (deps : Deps) (s : HandlerState Verifier) (clientIp : String) (now : Int)
    (iv : Bytes) : Option InitBody → HandlerState Verifier × Response
  | none => (s, .uncaught)
  | some body =>
      if !body.complete then (s, .error .missingFields)
      else
        match s.activeSession with
        | none => (s, .error .noLocalSession)
        | some session =>
            if session.state ≠ .waiting then (s, .error .noLocalSession)
            else checkPin L deps s session clientIp now iv body

def init (deps : Deps) (s : HandlerState Verifier) (now : Int) (remoteAddress : Option String)
    (iv : Bytes) (body : Option InitBody) : HandlerState Verifier × Response :=
  let s := cleanExpiredSession s now
  let clientIp := remoteAddress.getD "unknown"
  let (locked, ipFailures) := isIpLocked s.ipFailures clientIp now
  let s := { s with ipFailures }
  if locked then (s, .error .tooManyAttempts)
  else checkBody L deps s clientIp now iv body

/-! ## POST /pairing/confirm -/

/-- The peer that a body names under the key, or why there is none.  Only a text can be hashed. -/
def confirmedPeer (key : Bytes) (now : Int) (body : Option Sealed) :
    Except PairingError PairedPeer :=
  match (body.bind (decryptWithKey L key)).bind L.parse with
  | none => .error .confirmationFailed
  | some peerData =>
      match peerData.publicKeyPem.text? with
      | none => .error .confirmationFailed
      | some publicKeyPem =>
          if .string (L.sha256Hex publicKeyPem) ≠ peerData.fingerprint then
            .error .fingerprintMismatch
          else
            .ok { agentId := peerData.agentId, publicKeyPem := .string publicKeyPem
                  caCertPem := peerData.caCertPem
                  fingerprint := peerData.fingerprint, pairedAt := now
                  hostname := peerData.hostname }

/-- The session moves to a state. -/
def HandlerState.setState (s : HandlerState Verifier) (state : SessionState) :
    HandlerState Verifier :=
  { s with activeSession := s.activeSession.map fun session => { session with state } }

/-- The peer is kept from here on; writing the file and rebuilding the trust store may throw. -/
def storePeer (s : HandlerState Verifier) (peer : PairedPeer) (saved rebuilt : Bool) :
    HandlerState Verifier × Response :=
  let s := { s with store := s.store.addPeer peer }
  if saved && rebuilt then (s.setState .completed, .paired peer.agentId)
  else (s.setState .failed, .error .confirmationFailed)

def confirm (s : HandlerState Verifier) (now : Int) (body : Option Sealed)
    (saved rebuilt : Bool) : HandlerState Verifier × Response :=
  match s.activeSession with
  | some { state := .handshake, sharedKey := some key, .. } =>
      match confirmedPeer L key now body with
      | .ok peer => storePeer s peer saved rebuilt
      | .error .fingerprintMismatch => (s, .error .fingerprintMismatch)
      | .error error => (s.setState .failed, .error error)
  | _ => (s, .error .noActiveSession)

/-! ## GET /pairing/status -/

def status (s : HandlerState Verifier) (now : Int) : HandlerState Verifier × Response :=
  let s := cleanExpiredSession s now
  let view := s.activeSession.map fun session =>
    { state := session.state, peer := session.peerAgentId
      ageSeconds := (now - session.createdAt) / 1000 }
  (s, .status view s.store.getAllPeers)

/-! ## Requests -/

/-- A request with the clock, the random numbers and the outcomes of the effects. -/
inductive Request
  | start (now : Int) (draw seed : Nat)
  | init (now : Int) (remoteAddress : Option String) (iv : Bytes) (body : Option InitBody)
  | confirm (now : Int) (body : Option Sealed) (saved rebuilt : Bool)
  | status (now : Int)

def Request.now : Request → Int
  | start now _ _ | init now _ _ _ | confirm now _ _ _ | status now => now

def handle (deps : Deps) (s : HandlerState Verifier) :
    Request → HandlerState Verifier × Response
  | .start now draw seed => start L deps s now draw seed
  | .init now remoteAddress iv body => init L deps s now remoteAddress iv body
  | .confirm now body saved rebuilt => confirm L s now body saved rebuilt
  | .status now => status s now

end ThinkLocal.Pairing
