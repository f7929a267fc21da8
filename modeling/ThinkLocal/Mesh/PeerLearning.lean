import ThinkLocal.Js.Data
import ThinkLocal.Mesh.PeerCache

/-!
# Learning peers

`learnInboundPeer` and `relearnPeer` with the dependencies that the daemon passes to them.  The
answers of the gates and of the fetches are inputs; what a learner hands to `recordAuthenticatedSeen`
is part of its result.
-/

namespace ThinkLocal.Mesh

open Foundation Js

/-! ## Fetching a card -/

structure FetchedCard where
  spiffeUri : Option String
  publicKey : Option String
deriving DecidableEq

/-- One attempt to fetch a card. -/
inductive Fetch
  | thrown
  | fetched (card : Option FetchedCard)
deriving DecidableEq

def maxFetchAttempts : Nat := 3

/-- The fetch with its retries: only an attempt that throws is repeated. -/
def fetchWithRetry (attempt : Nat → Fetch) : Option (Option FetchedCard) :=
  (List.range maxFetchAttempts).findSome? fun n =>
    match attempt n with
    | .thrown => none
    | .fetched card => some card

/-- The key of a card for the expected URI. -/
def acceptedKey (expectedSpiffeUri : String) (card : Option FetchedCard) : Option String :=
  card.bind fun card =>
    if card.spiffeUri = some expectedSpiffeUri then card.publicKey.filter fun key => key ≠ "" else none

inductive LearnResult
  /-- What was recorded; the manager sets `lastSeen`. -/
  | recorded (entry : AuthenticatedSeenEntry)
  | skippedResolvable
  | rejectedIdentity
  | rateLimited
  | endpointBlocked
  | fetchFailed
deriving DecidableEq

def LearnResult.entry : LearnResult → Option AuthenticatedSeenEntry
  | recorded entry => some entry
  | _ => none

/-- The card is fetched and checked, and its key is recorded. -/
def learnFrom (peerId expectedSpiffeUri certFingerprint endpoint : String) (attempt : Nat → Fetch) :
    LearnResult :=
  match fetchWithRetry attempt with
  | none => .fetchFailed
  | some card =>
      match acceptedKey expectedSpiffeUri card with
      | none => .rejectedIdentity
      | some publicKey =>
          .recorded
            { peerId := peerId, publicKey := publicKey, spiffeUri := expectedSpiffeUri
              certFingerprint := certFingerprint, endpoint := endpoint, lastSeen := 0 }

/-! ## Inbound -/

/-- The SHA-256 digest of a certificate. -/
structure Digest where
  bytes : List UInt8
  length_eq : bytes.length = 32

def upperHex (n : Nat) : Char := (Data.hexDigit n).toUpper

def hexPair (byte : UInt8) : List Char := [upperHex (byte.toNat / 16), upperHex (byte.toNat % 16)]

/-- `fingerprint256` of a certificate. -/
def fingerprint256 (digest : Digest) : String :=
  String.ofList ([':'].intercalate (digest.bytes.map hexPair))

/-- Without the start of an IPv4 address in IPv6. -/
def unmapped (host : String) : String :=
  let mapped := "::ffff:".toList
  if (host.toList.take mapped.length).map Char.toLower = mapped then
    String.ofList (host.toList.drop mapped.length)
  else host

def hostForUrl (host : String) : String :=
  let h := unmapped host
  if ':' ∈ h.toList then "[" ++ h ++ "]" else h

def httpsEndpoint (host : String) (port : Nat) : String :=
  "https://" ++ hostForUrl host ++ ":" ++ toString port

/-- An authenticated inbound connection and the answers that its learner gets. -/
structure LearnInboundPeerDeps where
  peerId : String
  senderUri : String
  remoteAddress : String
  port : Nat
  /-- The digest of the client's certificate. -/
  digest : Digest
  isAlreadyResolvable : Bool
  rateLimitOk : Bool
  fetchCard : Nat → Fetch
  resolveFallbackAddress : Option String
  isFallbackAddressAllowed : String → Bool
  /-- Absent where the daemon has no certificate. -/
  fetchCardPinned : Option (Nat → Fetch)

/-- The address of the card and how it is fetched. -/
def LearnInboundPeerDeps.source (d : LearnInboundPeerDeps) : Option (String × (Nat → Fetch)) :=
  if d.remoteAddress ≠ "" then some (d.remoteAddress, d.fetchCard)
  else
    match d.resolveFallbackAddress.filter fun address => address ≠ "", d.fetchCardPinned with
    | some address, some pinned =>
        if d.isFallbackAddressAllowed address then some (address, pinned) else none
    | _, _ => none

def learnInboundPeer (d : LearnInboundPeerDeps) : LearnResult :=
  if d.senderUri ≠ peerIdToSpiffeUri d.peerId then .rejectedIdentity
  else if d.isAlreadyResolvable then .skippedResolvable
  else if ! d.rateLimitOk then .rateLimited
  else
    match d.source with
    | none => .fetchFailed
    | some (address, fetch) =>
        learnFrom d.peerId (peerIdToSpiffeUri d.peerId) (fingerprint256 d.digest)
          (httpsEndpoint address d.port) fetch

/-! ## At boot -/

/-- The answers that the learner of a target of the cache gets. -/
structure ReLearnPeerDeps where
  isAlreadyResolvable : Bool
  isEndpointAllowed : Bool
  rateLimitOk : Bool
  fetchCardPinned : Nat → Fetch

/-- `relearnPeer`, which the daemon calls without a fingerprint. -/
def relearnPeer (target : PeerCacheLocator) (d : ReLearnPeerDeps) : LearnResult :=
  if d.isAlreadyResolvable then .skippedResolvable
  else if ! d.isEndpointAllowed then .endpointBlocked
  else if ! d.rateLimitOk then .rateLimited
  else learnFrom target.peerId target.spiffeUri "" target.endpoint d.fetchCardPinned

/-! ## What is recorded -/

variable {entry : AuthenticatedSeenEntry}

/-- A learner records the fingerprint that it was given. -/
theorem certFingerprint_learnFrom {peerId expectedSpiffeUri certFingerprint endpoint : String}
    {attempt : Nat → Fetch}
    (h : (learnFrom peerId expectedSpiffeUri certFingerprint endpoint attempt).entry = some entry) :
    entry.peerId = peerId ∧ entry.certFingerprint = certFingerprint := by
  unfold learnFrom at h
  split at h
  · cases h
  · split at h
    · cases h
    · obtain rfl := Option.some.inj h
      exact ⟨rfl, rfl⟩

theorem certFingerprint_learnInboundPeer {d : LearnInboundPeerDeps}
    (h : (learnInboundPeer d).entry = some entry) :
    entry.certFingerprint = fingerprint256 d.digest := by
  unfold learnInboundPeer at h
  split_ifs at h
  · cases h
  · cases h
  · cases h
  · split at h
    · cases h
    · exact (certFingerprint_learnFrom h).2

theorem certFingerprint_relearnPeer {target : PeerCacheLocator} {d : ReLearnPeerDeps}
    (h : (relearnPeer target d).entry = some entry) :
    entry.peerId = target.peerId ∧ entry.certFingerprint = "" := by
  unfold relearnPeer at h
  split_ifs at h
  · cases h
  · cases h
  · cases h
  · exact certFingerprint_learnFrom h

/-- The fingerprint of Node has colons, which the reader of the cache does not accept. -/
theorem isPlausibleFingerprint_fingerprint256 (digest : Digest) :
    isPlausibleFingerprint (fingerprint256 digest) = false := by
  obtain ⟨bytes, hlength⟩ := digest
  match bytes, hlength with
  | first :: second :: rest, _ =>
      have hcolon : ':' ∈ (fingerprint256 ⟨first :: second :: rest, ‹_›⟩).toList := by
        rw [fingerprint256, String.toList_ofList]
        simp [List.intercalate, hexPair]
      have hall : ¬ (fingerprint256 ⟨first :: second :: rest, ‹_›⟩).toList.all isHexDigit = true :=
        fun hall => absurd (List.all_eq_true.mp hall ':' hcolon) (by decide)
      rw [isPlausibleFingerprint, decide_eq_false_iff_not]
      exact fun hboth => hall hboth.2

end ThinkLocal.Mesh
