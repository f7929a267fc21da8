import ThinkLocal.Mesh.SubjectAltName

/-!
# The sender of a node and its receivers

`resolveSelfIdentity` decides at boot whether a node may send under its canonical URI; a receiver
decides on the certificate that the node presents.  The sender looks whether its URI is among the
SANs, the receiver looks at the first canonical one.
-/

namespace ThinkLocal.Mesh

/-! ## The sender -/

structure SelfIdentityInput where
  emitCanonicalFlag : Bool
  legacyUri : String
  peerId : Option String
  certSans : List String
  certIssuerIsAttesting : Bool

inductive BlockedReason
  | libp2p_disabled_no_peerid
  | cert_san_not_canonical
  | cert_issuer_not_attesting
deriving DecidableEq

structure SelfIdentityDecision where
  selfIdentityUri : String
  emitCanonical : Bool
  canonicalSelfUri : Option String
  certSanIsCanonical : Bool
  blockedReason : Option BlockedReason

def resolveSelfIdentity (input : SelfIdentityInput) : SelfIdentityDecision :=
  let canonicalSelfUri := (input.peerId.filter fun peerId => peerId ≠ "").map peerIdToSpiffeUri
  let certSanIsCanonical := canonicalSelfUri.any fun uri => uri ∈ input.certSans
  let emitCanonical :=
    input.emitCanonicalFlag && certSanIsCanonical && input.certIssuerIsAttesting
  { selfIdentityUri :=
      if emitCanonical then canonicalSelfUri.getD input.legacyUri else input.legacyUri
    emitCanonical
    canonicalSelfUri
    certSanIsCanonical
    blockedReason :=
      if input.emitCanonicalFlag ∧ ¬ emitCanonical then
        if canonicalSelfUri = none then some .libp2p_disabled_no_peerid
        else if ¬ certSanIsCanonical then some .cert_san_not_canonical
        else some .cert_issuer_not_attesting
      else none }

/-- `extractSpiffeUris` of `tls.ts`, which reads the entries themselves. -/
def extractSpiffeUris (names : List AltName) : List String :=
  (names.filter fun name =>
    name.type = .uri ∧ "spiffe://thinklocal/".toList <+: name.value.toList).map AltName.value

/-! ## The receiver -/

/-- A client certificate of a validated socket. -/
structure ClientCert where
  names : List AltName
  issuerFingerprint : Option String

def ClientCert.certSans (cert : ClientCert) : List String :=
  spiffeUrisFromSubjectAltName (subjectaltname cert.names)

/-- What the handler of `/message` finds out about a sender. -/
structure SenderCheck where
  authz : HttpsSenderAuthz
  attestedPeerId : Option String

def checkSender (pins : List String) (cert : ClientCert) (sender : String) : SenderCheck where
  authz := authorizeHttpsSender sender (canonicalCertSan cert.certSans)
  attestedPeerId := attestedPeerIdFromCert cert.certSans cert.issuerFingerprint pins

/-- Does the handler go on to the signature? -/
def SenderCheck.passes (check : SenderCheck) : Bool :=
  check.authz.ok && ! (check.authz.verifiedPeerId.isSome && check.attestedPeerId.isNone)

/-- A sender is accepted as the PeerID that the certificate attests. -/
def AcceptedAs (check : SenderCheck) (peerId : String) : Prop :=
  check.passes = true ∧ check.authz.verifiedPeerId = some peerId ∧
    check.attestedPeerId = some peerId

/-! ## Agreement -/

variable {pins : List String} {cert : ClientCert} {sender peerId : String}

/-- The input of a node that has the certificate and the pins. -/
def selfIdentityInput (emitCanonicalFlag : Bool) (legacyUri peerId : String) (pins : List String)
    (cert : ClientCert) : SelfIdentityInput where
  emitCanonicalFlag
  legacyUri
  peerId := some peerId
  certSans := extractSpiffeUris cert.names
  certIssuerIsAttesting := isAttestingIssuer cert.issuerFingerprint pins

theorem authorizeHttpsSender_of_cert {san : String} (hsan : spiffeUriToPeerId san = some peerId)
    (hsender : spiffeUriToPeerId sender = some peerId) :
    authorizeHttpsSender sender (some san) = { ok := true, verifiedPeerId := some peerId } := by
  rw [authorizeHttpsSender, hsender]
  dsimp only
  rw [Option.bind_some, hsan]
  exact if_pos rfl

theorem attestedPeerIdFromCert_of_first {certSans : List String} {san : String}
    {issuerFingerprint : Option String} (hcanonical : canonicalCertSan certSans = some san)
    (hsan : spiffeUriToPeerId san = some peerId)
    (hpinned : isAttestingIssuer issuerFingerprint pins = true) :
    attestedPeerIdFromCert certSans issuerFingerprint pins = some peerId := by
  rw [attestedPeerIdFromCert, find_canonical hcanonical hsan]
  exact (if_pos hpinned).trans hsan

/-- The issuer of a certificate that attests anything is pinned. -/
theorem pinned_of_attested {certSans : List String} {issuerFingerprint : Option String}
    (h : attestedPeerIdFromCert certSans issuerFingerprint pins = some peerId) :
    isAttestingIssuer issuerFingerprint pins = true := by
  unfold attestedPeerIdFromCert at h
  split at h
  · cases h
  · split_ifs at h with hpinned
    exact hpinned

/-- With a pinned issuer, a node is accepted under its canonical URI exactly if that is the first
canonical SAN. -/
theorem acceptedAs_iff (hpinned : isAttestingIssuer cert.issuerFingerprint pins = true) :
    AcceptedAs (checkSender pins cert (peerIdToSpiffeUri peerId)) peerId ↔
      canonicalCertSan cert.certSans = some (peerIdToSpiffeUri peerId) ∧
        isPeerIdText peerId.toList = true := by
  constructor
  · rintro ⟨-, hverified, -⟩
    obtain ⟨hsender, hcert⟩ := verifiedPeerId_of_authorized hverified
    obtain ⟨san, hcanonical, hsan⟩ := Option.bind_eq_some_iff.mp hcert
    obtain ⟨rfl, htext⟩ := spiffeUriToPeerId_eq_some_iff.mp hsan
    exact ⟨hcanonical, htext⟩
  · rintro ⟨hcanonical, htext⟩
    have huri : spiffeUriToPeerId (peerIdToSpiffeUri peerId) = some peerId :=
      spiffeUriToPeerId_eq_some_iff.mpr ⟨rfl, htext⟩
    have hauthz : (checkSender pins cert (peerIdToSpiffeUri peerId)).authz =
        { ok := true, verifiedPeerId := some peerId } := by
      rw [checkSender, hcanonical]
      exact authorizeHttpsSender_of_cert huri huri
    have hattested : (checkSender pins cert (peerIdToSpiffeUri peerId)).attestedPeerId =
        some peerId := attestedPeerIdFromCert_of_first hcanonical huri hpinned
    refine ⟨?_, by rw [hauthz], hattested⟩
    rw [SenderCheck.passes, hauthz, hattested]
    rfl

theorem attesting_of_emitCanonical {emitCanonicalFlag : Bool} {legacyUri : String}
    (h : (resolveSelfIdentity
      (selfIdentityInput emitCanonicalFlag legacyUri peerId pins cert)).emitCanonical = true) :
    isAttestingIssuer cert.issuerFingerprint pins = true := by
  exact (Bool.and_eq_true_iff.mp h).2

/-- A canonical sender is authorised as its PeerID or not at all. -/
theorem verifiedPeerId_of_ok {certSpiffe : Option String}
    (hcanonical : spiffeUriToPeerId sender = some peerId)
    (h : (authorizeHttpsSender sender certSpiffe).ok = true) :
    (authorizeHttpsSender sender certSpiffe).verifiedPeerId = some peerId := by
  unfold authorizeHttpsSender at h ⊢
  rw [hcanonical] at h ⊢
  dsimp only at h ⊢
  cases hcert : certSpiffe.bind spiffeUriToPeerId with
  | none =>
      rw [hcert] at h
      cases h
  | some certPeerId =>
      rw [hcert] at h
      dsimp only at h ⊢
      split_ifs at h ⊢
      rfl

/-- A canonical sender that passes is the one that a pinned issuer attests. -/
theorem attested_of_passes (hcanonical : spiffeUriToPeerId sender = some peerId)
    (h : (checkSender pins cert sender).passes = true) :
    isAttestingIssuer cert.issuerFingerprint pins = true ∧
      (checkSender pins cert sender).attestedPeerId = some peerId := by
  obtain ⟨hok, hattested⟩ := Bool.and_eq_true_iff.mp h
  have hverified := verifiedPeerId_of_ok hcanonical hok
  obtain ⟨-, hcert⟩ := verifiedPeerId_of_authorized hverified
  obtain ⟨san, hsan, hpeer⟩ := Option.bind_eq_some_iff.mp hcert
  cases hpeerId : (checkSender pins cert sender).attestedPeerId with
  | none =>
      have hsome : (checkSender pins cert sender).authz.verifiedPeerId = some peerId := hverified
      rw [hsome, hpeerId] at hattested
      cases hattested
  | some attested =>
      obtain rfl := attestedPeerIdFromCert_of_canonical hsan hpeer hpeerId
      exact ⟨pinned_of_attested hpeerId, rfl⟩

/-- A node that sends under its canonical URI is accepted, as its PeerID, by a receiver with the same
pins exactly if the URI is the first canonical SAN of its certificate; and a canonical sender is let
through only with a certificate of a pinned issuer that attests its PeerID. -/
theorem sender_identity (pins : List String) (cert : ClientCert) :
    (∀ emitCanonicalFlag legacyUri peerId,
      (resolveSelfIdentity
          (selfIdentityInput emitCanonicalFlag legacyUri peerId pins cert)).emitCanonical = true →
        (AcceptedAs (checkSender pins cert (peerIdToSpiffeUri peerId)) peerId ↔
          canonicalCertSan cert.certSans = some (peerIdToSpiffeUri peerId) ∧
            isPeerIdText peerId.toList = true)) ∧
      ∀ sender peerId, spiffeUriToPeerId sender = some peerId →
        (checkSender pins cert sender).passes = true →
          isAttestingIssuer cert.issuerFingerprint pins = true ∧
            (checkSender pins cert sender).attestedPeerId = some peerId :=
  ⟨fun _ _ _ hemits => acceptedAs_iff (attesting_of_emitCanonical hemits),
    fun _ _ hcanonical hpasses => attested_of_passes hcanonical hpasses⟩

/-- A certificate of the migration, with the legacy URI and the canonical one. -/
def migrated : ClientCert where
  names :=
    [⟨.uri, "spiffe://thinklocal/host/h1/agent/daemon"⟩, ⟨.dns, "h1.local"⟩,
      ⟨.uri, "spiffe://thinklocal/node/12D3abc"⟩]
  issuerFingerprint := some "AB:CD"

theorem sender_identity_migrated :
    (resolveSelfIdentity
        (selfIdentityInput true "spiffe://thinklocal/host/h1/agent/daemon" "12D3abc" ["abcd"]
          migrated)).selfIdentityUri = "spiffe://thinklocal/node/12D3abc" ∧
      AcceptedAs (checkSender ["abcd"] migrated "spiffe://thinklocal/node/12D3abc") "12D3abc" ∧
      (checkSender ["abcd"] migrated "spiffe://thinklocal/node/12D3abc").attestedPeerId =
        some "12D3abc" := by
  have hsans : migrated.certSans =
      ["spiffe://thinklocal/host/h1/agent/daemon", "spiffe://thinklocal/node/12D3abc"] := by
    rw [ClientCert.certSans, spiffeUris_eq]
    decide
  obtain ⟨hsender, hreceiver⟩ := sender_identity ["abcd"] migrated
  have haccepted : AcceptedAs (checkSender ["abcd"] migrated "spiffe://thinklocal/node/12D3abc")
      "12D3abc" := by
    refine (hsender true "" "12D3abc" (by decide)).mpr ⟨?_, by decide⟩
    rw [hsans]
    decide
  exact ⟨by decide, haccepted, (hreceiver _ _ (by decide) haccepted.1).2⟩

/-- A certificate with the URIs of two nodes: the node sends under the second one, the receiver
compares the first; and the check of the sender alone does not look at the issuer. -/
theorem second_san_refused :
    (resolveSelfIdentity
        (selfIdentityInput true "spiffe://thinklocal/host/h1/agent/daemon" "12D3abc" ["abcd"]
          ⟨[⟨.uri, "spiffe://thinklocal/node/12D3xyz"⟩, ⟨.uri, "spiffe://thinklocal/node/12D3abc"⟩],
            some "AB:CD"⟩)).selfIdentityUri = "spiffe://thinklocal/node/12D3abc" ∧
      (authorizeHttpsSender "spiffe://thinklocal/node/12D3abc"
        (canonicalCertSan (spiffeUrisFromSubjectAltName (subjectaltname
          [⟨.uri, "spiffe://thinklocal/node/12D3xyz"⟩,
            ⟨.uri, "spiffe://thinklocal/node/12D3abc"⟩])))).ok = false ∧
      (authorizeHttpsSender "spiffe://thinklocal/node/12D3abc"
        (canonicalCertSan (spiffeUrisFromSubjectAltName (subjectaltname
          [⟨.uri, "spiffe://thinklocal/node/12D3abc"⟩])))).ok = true ∧
      isAttestingIssuer (some "EF:00") ["abcd"] = false := by
  rw [spiffeUris_eq, spiffeUris_eq]
  decide

end ThinkLocal.Mesh
