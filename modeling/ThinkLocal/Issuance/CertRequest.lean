import ThinkLocal.Issuance.SingleUse
import ThinkLocal.Js.JsonValues
import ThinkLocal.Mesh.PeerIdentity

/-!
# Asking for a certificate

The node of `cert-request.ts` and the calls of `cert-issuance-api.ts` that it meets.  Any number of
nodes ask one issuer over a network that delivers what it likes; what a node has signed is recorded,
and a signature counts only for what has been signed.
-/

namespace ThinkLocal.Issuance

open Js Foundation Foundation.Except
open Mesh (peerIdToSpiffeUri)

/-! ## The calls -/

/-- An answer over HTTP. -/
structure FetchReply where
  status : Nat
  text : String

def FetchReply.ok (reply : FetchReply) : Bool := 200 ≤ reply.status ∧ reply.status < 300

def errorReply (code : Nat) (error : String) : FetchReply :=
  ⟨code, Json.stringify 0 (.object [("error", .string error)])⟩

variable {forge : Forge}

/-- `POST /api/cert/nonce`, with the answer of the rate limiter and what `issue` gives. -/
def nonceReply (issuer : CertIssuer forge) (authorized allowed : Bool) (given : Option String) :
    FetchReply :=
  if ! authorized then errorReply 401 "mTLS client certificate required"
  else if ! allowed then errorReply 429 "Too Many Requests"
  else
    match given with
    | none => errorReply 503 "Nonce capacity exhausted, retry shortly"
    | some nonce => ⟨200, Json.stringify 0 (.object
        [("nonce", .string nonce), ("caFingerprint", .string issuer.caFingerprint)])⟩

def stringField (fields : List (String × Json)) (key : String) : Option String :=
  match Json.fieldOf fields key with
  | some (.string text) => some text
  | _ => none

/-- The request in the body of `POST /api/cert/sign`, `none` where it is refused with 400. -/
def signBody : Json → Option CertSignRequest
  | .object fields => do
      let peerId ← stringField fields "peerId"
      let ed25519PublicKeyB64 ← stringField fields "ed25519PublicKeyB64"
      let spiffeUri ← stringField fields "spiffeUri"
      let nonce ← stringField fields "nonce"
      let csrPem ← stringField fields "csrPem"
      let popSignatureB64 ← stringField fields "popSignatureB64"
      return { peerId, ed25519PublicKeyB64, spiffeUri, nonce, csrPem, popSignatureB64 }
  | _ => none

def requesterIps (ip : String) : List String :=
  [ip].filter fun ip => ip ≠ "" ∧ ip ≠ "127.0.0.1" ∧ ip ≠ "::1" ∧ ip ≠ "::ffff:127.0.0.1"

/-- `POST /api/cert/sign` once the request has been answered. -/
def signReply : Except String (SignedCertificate forge) → FetchReply
  | .ok signed => ⟨200, Json.stringify 0 (.object
      [("certPem", .string (forge.certificateToPem signed.certificate signed.signature))])⟩
  | .error reason => ⟨403, Json.stringify 0 (.object
      [("error", .string "Cert issuance rejected"), ("reason", .string reason)])⟩

/-! ## The node -/

/-- What a node takes from `@libp2p`, `node-forge` and the runtime. -/
structure ClientLib (forge : Forge) (keys : PeerKeys) where
  PrivateKey : Type
  publicKey : PrivateKey → keys.PublicKey
  raw : keys.PublicKey → Bytes
  sign : PrivateKey → Bytes → Bytes
  /-- A pair of RSA keys. -/
  TlsKeys : Type
  tlsPublicKey : TlsKeys → forge.Key
  /-- The signed request for a common name. -/
  certificationRequestToPem : TlsKeys → (commonName : String) → String
  privateKeyToPem : TlsKeys → String
  /-- What `JSON.parse` throws, and the destructuring of `null`. -/
  syntaxError : String → String
  typeError : String

variable {keys : PeerKeys} (lib : ClientLib forge keys)

structure GeneratedCsr where
  csrPem : String
  keyPem : String
  csrPublicKeyHash : String

def generateNodeKeypairAndCsr (hostname : String) (drawn : lib.TlsKeys) :
    Except String GeneratedCsr := do
  let csrPublicKeyHash ← publicKeyDerHash forge (lib.tlsPublicKey drawn)
  return ⟨lib.certificationRequestToPem drawn hostname, lib.privateKeyToPem drawn, csrPublicKeyHash⟩

def signCertPop (privateKey : lib.PrivateKey) (fields : CertPopFields) : String :=
  toBase64 (lib.sign privateKey (buildCertPopMessage fields))

def certPopFields (peerId caFingerprint nonce : String) (csr : GeneratedCsr) : CertPopFields where
  caFingerprint := caFingerprint
  nonce := nonce
  peerId := peerId
  spiffeUri := peerIdToSpiffeUri peerId
  csrPublicKeyHash := csr.csrPublicKeyHash

def buildCertSignRequest (privateKey : lib.PrivateKey) (peerId caFingerprint nonce : String)
    (csr : GeneratedCsr) : CertSignRequest where
  peerId := peerId
  ed25519PublicKeyB64 := toBase64 (lib.raw (lib.publicKey privateKey))
  spiffeUri := peerIdToSpiffeUri peerId
  nonce := nonce
  csrPem := csr.csrPem
  popSignatureB64 := signCertPop lib privateKey (certPopFields peerId caFingerprint nonce csr)

def CertSignRequest.json (req : CertSignRequest) : Json :=
  .object [("peerId", .string req.peerId), ("ed25519PublicKeyB64", .string req.ed25519PublicKeyB64),
    ("spiffeUri", .string req.spiffeUri), ("nonce", .string req.nonce),
    ("csrPem", .string req.csrPem), ("popSignatureB64", .string req.popSignatureB64)]

def replyJson (reply : FetchReply) : Except String Json :=
  match Json.parse reply.text with
  | none => .error (lib.syntaxError reply.text)
  | some value => .ok value

def httpError (start : String) (reply : FetchReply) : String :=
  start ++ ": HTTP " ++ toString reply.status ++ " " ++ reply.text

/-- The nonce and the fingerprint of an answer. -/
def nonceAnswer (reply : FetchReply) : Except String (String × String) :=
  if ! reply.ok then .error (httpError "Nonce-Anfrage fehlgeschlagen" reply)
  else do
    let invalid := "Nonce-Antwort unvollständig oder ungültig (nonce/caFingerprint)"
    match ← replyJson lib reply with
    | .object fields =>
        match stringField fields "nonce", stringField fields "caFingerprint" with
        | some nonce, some caFingerprint => return (nonce, caFingerprint)
        | _, _ => .error invalid
    | _ => .error invalid

/-- The certificate of an answer; its type is not looked at. -/
def certAnswer (reply : FetchReply) : Except String Json :=
  if ! reply.ok then .error (httpError "Cert-Signing fehlgeschlagen" reply)
  else do
    let missing := "Cert-Antwort ohne certPem"
    match ← replyJson lib reply with
    | .null => .error lib.typeError
    | .object fields =>
        match Json.fieldOf fields "certPem" with
        | some certPem => if Json.truthy (some certPem) then return certPem else .error missing
        | none => .error missing
    | _ => .error missing

structure RequestNodeCertResult where
  certPem : Json
  keyPem : String
  spiffeUri : String

/-- What is asked for, once the nonce is there. -/
def signRequest (privateKey : lib.PrivateKey) (peerId hostname : String) (nonceRes : FetchReply)
    (drawn : lib.TlsKeys) : Except String (CertSignRequest × CertPopFields × GeneratedCsr) := do
  let (nonce, caFingerprint) ← nonceAnswer lib nonceRes
  let csr ← generateNodeKeypairAndCsr lib hostname drawn
  return (buildCertSignRequest lib privateKey peerId caFingerprint nonce csr,
    certPopFields peerId caFingerprint nonce csr, csr)

def requestNodeCert (privateKey : lib.PrivateKey) (peerId hostname : String) (nonceRes : FetchReply)
    (drawn : lib.TlsKeys) (signRes : FetchReply) : Except String RequestNodeCertResult := do
  let (req, _, csr) ← signRequest lib privateKey peerId hostname nonceRes drawn
  let certPem ← certAnswer lib signRes
  return { certPem, keyPem := csr.keyPem, spiffeUri := req.spiffeUri }

/-! ## Nodes that ask -/

section Machine

variable (issuer : CertIssuer forge) (client : ClientLib forge issuer.keys) (P : Type)

structure Applicant where
  privateKey : client.PrivateKey
  hostname : String

variable {issuer client P}

/-- The name that `loadOrCreateLibp2pPrivateKey` gives a node. -/
def Applicant.peerId (node : Applicant issuer client) : String :=
  issuer.keys.peerIdFromPublicKey (client.publicKey node.privateKey)

variable (issuer client P) in
/-- A request that a node has made. -/
structure Session where
  node : P
  fields : CertPopFields
  drawn : client.TlsKeys

variable (issuer client P) in
structure JoinState where
  /-- The state of the issuer. -/
  ca : IssuerState forge
  sessions : List (Session issuer client P)
  /-- What the nodes have signed. -/
  signed : List (P × Bytes)

variable (issuer client P) in
inductive JoinAction
  /-- A call of the issuer, with a request from anywhere. -/
  | call (action : IssuanceAction)
  /-- A node gets an answer with a nonce from anywhere, and makes its request. -/
  | asks (node : P) (nonceRes : FetchReply) (drawn : client.TlsKeys)
  /-- A node signs something else with the key of its identity. -/
  | signs (node : P) (message : Bytes)

def JoinState.step (nodes : P → Applicant issuer client) (s : JoinState issuer client P) :
    JoinAction issuer client P → Option (JoinState issuer client P)
  | .call action => (s.ca.step issuer action).map fun next => { s with ca := next }
  | .asks node nonceRes drawn =>
      match signRequest client (nodes node).privateKey (nodes node).peerId (nodes node).hostname
        nonceRes drawn with
      | .error _ => some s
      | .ok (_, fields, _) =>
          some { s with
            sessions := ⟨node, fields, drawn⟩ :: s.sessions
            signed := (node, buildCertPopMessage fields) :: s.signed }
  | .signs node message => some { s with signed := (node, message) :: s.signed }

def joins (nodes : P → Applicant issuer client) (ttlMs : Int) (maxEntries : Nat) :
    Machine (JoinState issuer client P) (JoinAction issuer client P) where
  init := ⟨(issuanceMachine issuer ttlMs maxEntries).init, [], []⟩
  step := JoinState.step nodes

/-- What every message of a proof starts with. -/
def certPopPrefix : Bytes := Ipc.socketFraming.encode (encodeUtf8 CERT_POP_DOMAIN.toList)

/-- A good signature was made by the node whose key it is good for, and no other message of a node
starts like one of a proof. -/
structure Unforged (nodes : P → Applicant issuer client) (s : JoinState issuer client P)
    (a : JoinAction issuer client P) : Prop where
  made : ∀ index serial now attempt node message, a = .call (.answer index serial now) →
    s.ca.pending[index]? = some attempt →
    issuer.keys.verify (client.publicKey (nodes node).privateKey) message
      (fromBase64 attempt.req.popSignatureB64) = .ok true → (node, message) ∈ s.signed
  separate : ∀ node message, a = .signs node message → ¬ certPopPrefix <+: message

/-- The id of a peer tells its key. -/
def PeerIdsTell (nodes : P → Applicant issuer client) : Prop :=
  ∀ node pubKey, issuer.keys.type pubKey = "Ed25519" →
    issuer.keys.peerIdFromPublicKey pubKey = (nodes node).peerId →
      pubKey = client.publicKey (nodes node).privateKey

/-- The texts fit behind their lengths, and the keys that occur have different hashes. -/
structure JoinState.Distinct (s : JoinState issuer client P) : Prop where
  sessions : ∀ session ∈ s.sessions, session.fields.Fit
  certificates : ∀ granted ∈ s.ca.certificates, ∀ hash,
    publicKeyDerHash forge granted.signed.certificate.publicKey = .ok hash →
      (issuer.popFields granted.attempt.req hash).Fit
  hashes : ∀ granted ∈ s.ca.certificates, ∀ session ∈ s.sessions, ∀ hash,
    publicKeyDerHash forge granted.signed.certificate.publicKey = .ok hash →
      publicKeyDerHash forge (client.tlsPublicKey session.drawn) = .ok hash →
        granted.signed.certificate.publicKey = client.tlsPublicKey session.drawn

/-! ## What a certificate says about its node -/

variable {nodes : P → Applicant issuer client} {ttlMs : Int} {maxEntries : Nat}
  {s s' : JoinState issuer client P}

theorem signRequest_eq_ok {lib : ClientLib forge keys} {privateKey : lib.PrivateKey}
    {peerId hostname : String} {nonceRes : FetchReply} {drawn : lib.TlsKeys}
    {made : CertSignRequest × CertPopFields × GeneratedCsr}
    (h : signRequest lib privateKey peerId hostname nonceRes drawn = .ok made) :
    publicKeyDerHash forge (lib.tlsPublicKey drawn) = .ok made.2.1.csrPublicKeyHash := by
  obtain ⟨⟨nonce, caFingerprint⟩, -, h⟩ := bind_eq_ok_iff.mp h
  obtain ⟨csr, hcsr, h⟩ := bind_eq_ok_iff.mp h
  obtain rfl := pure_eq_ok_iff.mp h
  obtain ⟨hash, hhash, hcsr⟩ := bind_eq_ok_iff.mp hcsr
  obtain rfl := pure_eq_ok_iff.mp hcsr
  exact hhash

variable (nodes ttlMs maxEntries) in
/-- What holds in every state. -/
structure JoinState.Inv (s : JoinState issuer client P) : Prop where
  ca : (issuanceMachine issuer ttlMs maxEntries).Reachable s.ca
  /-- What looks like a proof is one of a session. -/
  signed : ∀ node message, (node, message) ∈ s.signed → certPopPrefix <+: message →
    ∃ session ∈ s.sessions, session.node = node ∧ message = buildCertPopMessage session.fields
  hashed : ∀ session ∈ s.sessions,
    publicKeyDerHash forge (client.tlsPublicKey session.drawn) = .ok session.fields.csrPublicKeyHash
  /-- Behind a certificate for a node is a message of the node. -/
  granted : ∀ granted ∈ s.ca.certificates, ∀ node,
    granted.attempt.req.peerId = (nodes node).peerId →
      ∃ hash, publicKeyDerHash forge granted.signed.certificate.publicKey = .ok hash ∧
        (node, buildCertPopMessage (issuer.popFields granted.attempt.req hash)) ∈ s.signed

theorem JoinState.Inv.init :
    JoinState.Inv nodes ttlMs maxEntries (joins nodes ttlMs maxEntries).init where
  ca := .init
  signed _ _ h := by cases h
  hashed _ h := by cases h
  granted _ h := by cases h

theorem certPopPrefix_starts (fields : CertPopFields) :
    certPopPrefix <+: buildCertPopMessage fields :=
  List.prefix_append _ _

/-- Which certificates a call adds. -/
theorem mem_certificates_step {ca ca' : IssuerState forge} {action : IssuanceAction}
    (h : ca.step issuer action = some ca') {granted : Granted forge}
    (hgranted : granted ∈ ca'.certificates) : granted ∈ ca.certificates ∨
      ∃ index serial now, action = .answer index serial now ∧
        ca.pending[index]? = some granted.attempt ∧
          Proven issuer granted.attempt.req granted.signed.certificate := by
  cases action with
  | issue gcTime time nonce =>
      obtain rfl := Option.some.inj h
      exact .inl hgranted
  | request req ipAddresses time =>
      obtain rfl := Option.some.inj h
      exact .inl hgranted
  | answer index serial now =>
      simp only [IssuerState.step, IssuerState.answer] at h
      split at h
      · cases h
      · next attempt hattempt =>
          obtain rfl := Option.some.inj h
          dsimp only at hgranted
          split at hgranted
          · next signed hissued =>
              rcases List.mem_cons.mp hgranted with rfl | hold
              · exact .inr ⟨index, serial, now, rfl, hattempt, proven_of_issueCert hissued⟩
              · exact .inl hold
          · exact .inl hgranted

/-- A further signature leaves a message behind each certificate. -/
theorem JoinState.Inv.granted_cons (hs : s.Inv nodes ttlMs maxEntries) (entry : P × Bytes) :
    ∀ granted ∈ s.ca.certificates, ∀ node, granted.attempt.req.peerId = (nodes node).peerId →
      ∃ hash, publicKeyDerHash forge granted.signed.certificate.publicKey = .ok hash ∧
        (node, buildCertPopMessage (issuer.popFields granted.attempt.req hash)) ∈
          entry :: s.signed := by
  intro granted hgranted node hnode
  obtain ⟨hash, hhash, hmem⟩ := hs.granted granted hgranted node hnode
  exact ⟨hash, hhash, List.mem_cons_of_mem _ hmem⟩

theorem JoinState.Inv.step (htell : PeerIdsTell nodes) (hs : s.Inv nodes ttlMs maxEntries)
    {a : JoinAction issuer client P} (hunforged : Unforged nodes s a)
    (h : (joins nodes ttlMs maxEntries).step s a = some s') : s'.Inv nodes ttlMs maxEntries := by
  cases a with
  | call action =>
      obtain ⟨ca', hca, rfl⟩ := Option.map_eq_some_iff.mp h
      refine { hs with ca := .step hs.ca trivial hca, granted := ?_ }
      intro granted hgranted node hnode
      rcases mem_certificates_step hca hgranted with hold | ⟨index, serial, now, rfl, hattempt, hproven⟩
      · exact hs.granted granted hold node hnode
      · obtain ⟨pubKey, hash, -, htype, hpeer, hhash, hverify⟩ := hproven.signed
        -- the key that the proof was checked with is the one of the node
        obtain rfl := htell node pubKey htype (hpeer.trans hnode)
        exact ⟨hash, hhash, hunforged.made index serial now _ node _ rfl hattempt hverify⟩
  | asks node nonceRes drawn =>
      simp only [joins, JoinState.step] at h
      split at h
      · obtain rfl := Option.some.inj h
        exact hs
      · next req fields csr hmade =>
          obtain rfl := Option.some.inj h
          refine { hs with signed := ?_, hashed := ?_, granted := hs.granted_cons _ }
          · intro other message hmem hprefix
            rcases List.mem_cons.mp hmem with heq | hold
            · obtain ⟨rfl, rfl⟩ := Prod.mk.inj heq
              exact ⟨_, List.mem_cons_self, rfl, rfl⟩
            · obtain ⟨session, hsession, hnode, hmessage⟩ := hs.signed other message hold hprefix
              exact ⟨session, List.mem_cons_of_mem _ hsession, hnode, hmessage⟩
          · intro session hsession
            rcases List.mem_cons.mp hsession with rfl | hold
            · exact signRequest_eq_ok hmade
            · exact hs.hashed session hold
  | signs node message =>
      obtain rfl := Option.some.inj h
      refine { hs with signed := ?_, granted := hs.granted_cons _ }
      intro other text hmem hprefix
      rcases List.mem_cons.mp hmem with heq | hold
      · obtain ⟨rfl, rfl⟩ := Prod.mk.inj heq
        exact absurd hprefix (hunforged.separate _ _ rfl)
      · exact hs.signed other text hold hprefix

theorem peerIdToSpiffeUri_eq (peerId : String) :
    peerIdToSpiffeUri peerId = "spiffe://thinklocal/node/" ++ peerId :=
  congrArg (· ++ peerId) (show "spiffe://" ++ Mesh.trustDomain ++ "/node/" = _ by decide)

/-- The URI of a node tells its id. -/
theorem peerId_eq_of_uri {granted : Granted forge} {peerId : String}
    (hproven : Proven issuer granted.attempt.req granted.signed.certificate)
    (h : .uri (peerIdToSpiffeUri peerId) ∈ granted.signed.certificate.altNames) :
    granted.attempt.req.peerId = peerId := by
  have huri := (hproven.onlyUri _ h).trans hproven.uri
  have htexts := congrArg String.toList huri
  rw [peerIdToSpiffeUri_eq, String.toList_append, String.toList_append] at htexts
  exact String.toList_injective (List.append_cancel_left htexts).symm

/-- The node itself has asked for the certificate, with this key and this nonce of this issuer. -/
def AskedFor (s : JoinState issuer client P) (node : P) (granted : Granted forge) : Prop :=
  ∃ session ∈ s.sessions, session.node = node ∧
    session.fields.nonce = granted.attempt.req.nonce ∧
    session.fields.caFingerprint = issuer.caFingerprint ∧
    client.tlsPublicKey session.drawn = granted.signed.certificate.publicKey ∧
    ∃ expiresAt, (session.fields.nonce, expiresAt) ∈ s.ca.nonces ∧
      granted.attempt.consumedAt ≤ expiresAt

/-- Whatever the network delivers, a certificate with the URI of a node has a key that the node has
drawn and asked for under a nonce of the issuer, and each time the nonce was given out counts once. -/
theorem issuance_authentic (htell : PeerIdsTell nodes)
    (hs : (joins nodes ttlMs maxEntries).ReachableUnder (Unforged nodes) s) (hdistinct : s.Distinct) :
    (∀ granted ∈ s.ca.certificates, ∀ node,
      .uri (peerIdToSpiffeUri (nodes node).peerId) ∈ granted.signed.certificate.altNames →
        AskedFor s node granted) ∧
    ∀ nonce, s.ca.certificates.countP (·.attempt.req.nonce = nonce) ≤
      s.ca.nonces.countP (·.1 = nonce) := by
  have hinv : s.Inv nodes ttlMs maxEntries :=
    hs.invariant .init fun _ _ _ hI hunforged hstep => hI.step htell hunforged hstep
  have haccounted := accounted_of_reachable hinv.ca
  refine ⟨fun granted hgranted node huri => ?_, fun nonce => ?_⟩
  · have hpeer := peerId_eq_of_uri (haccounted.proven granted hgranted) huri
    obtain ⟨hash, hhash, hmem⟩ := hinv.granted granted hgranted node hpeer
    obtain ⟨session, hsession, rfl, hmessage⟩ :=
      hinv.signed node _ hmem (certPopPrefix_starts _)
    have hfields := buildCertPopMessage_injective (hdistinct.certificates granted hgranted hash hhash)
      (hdistinct.sessions session hsession) hmessage
    have hsame : publicKeyDerHash forge (client.tlsPublicKey session.drawn) = .ok hash := by
      rw [hinv.hashed session hsession, ← hfields]
      rfl
    have hnonce : session.fields.nonce = granted.attempt.req.nonce :=
      congrArg CertPopFields.nonce hfields.symm
    refine ⟨session, hsession, rfl, hnonce, congrArg CertPopFields.caFingerprint hfields.symm,
      (hdistinct.hashes granted hgranted session hsession hash hhash hsame).symm, ?_⟩
    rw [hnonce]
    exact haccounted.certificates_inTime granted hgranted
  · have hcount := haccounted.count_le nonce
    omega

/-! ## Who asks is served -/

variable (issuer client) in
/-- What the libraries do with what they have made themselves. -/
structure Serves : Prop where
  reads : ∀ drawn commonName, forge.certificationRequestFromPem
    (client.certificationRequestToPem drawn commonName) =
      .ok ⟨.ok true, some (client.tlsPublicKey drawn), some commonName⟩
  raw : ∀ privateKey, (client.raw (client.publicKey privateKey)).length = 32 ∧
    issuer.keys.publicKeyFromRaw (client.raw (client.publicKey privateKey)) =
      .ok (client.publicKey privateKey)
  type : ∀ privateKey, issuer.keys.type (client.publicKey privateKey) = "Ed25519"
  verifies : ∀ privateKey message, issuer.keys.verify (client.publicKey privateKey) message
    (client.sign privateKey message) = .ok true
  caKey : ∃ caKey, forge.privateKeyFromPem issuer.ca.caKeyPem = .ok caKey ∧
    ∀ certificate, ∃ signature, forge.sign caKey certificate = .ok signature
  loopback : ∀ ip ∈ ["127.0.0.1", "::1"], ∃ bytes, forge.bytesFromIP ip = some bytes
  toPem : ∀ certificate signature, forge.certificateToPem certificate signature ≠ ""

theorem mapM_ipName {ips : List String} (h : ∀ ip ∈ ips, ∃ bytes, forge.bytesFromIP ip = some bytes) :
    ∃ names, ips.mapM (ipName forge) = .ok names := by
  induction ips with
  | nil => exact ⟨[], rfl⟩
  | cons ip ips ih =>
      obtain ⟨bytes, hbytes⟩ := h ip List.mem_cons_self
      obtain ⟨names, hnames⟩ := ih fun other hother => h other (List.mem_cons_of_mem _ hother)
      refine ⟨.ip bytes :: names, ?_⟩
      rw [List.mapM_cons, hnames, ipName, hbytes]
      rfl

variable {privateKey : client.PrivateKey} {hostname nonce : String} {drawn : client.TlsKeys}
  {csr : GeneratedCsr} {ips : List String}

variable (client privateKey nonce csr) in
/-- The request of a node that has a nonce of the issuer. -/
def ownRequest : CertSignRequest :=
  buildCertSignRequest client privateKey
    (issuer.keys.peerIdFromPublicKey (client.publicKey privateKey)) issuer.caFingerprint nonce csr

/-- A good proof is accepted. -/
theorem verifyCertPop_eq_ok_of {raw : Bytes} {fields : CertPopFields} {signatureB64 : String}
    {pubKey : keys.PublicKey} (hpubKey : keys.publicKeyFromRaw raw = .ok pubKey)
    (htype : keys.type pubKey = "Ed25519") (hpeer : keys.peerIdFromPublicKey pubKey = fields.peerId)
    (huri : fields.spiffeUri = "spiffe://thinklocal/node/" ++ keys.peerIdFromPublicKey pubKey)
    (hverify : keys.verify pubKey (buildCertPopMessage fields) (fromBase64 signatureB64) = .ok true) :
    verifyCertPop keys raw fields signatureB64 fields.caFingerprint = .ok () := by
  refine bind_eq_ok_iff.mpr ⟨pubKey, by rw [hpubKey]; rfl, ?_⟩
  dsimp only
  rw [if_neg (not_not.mpr htype), if_neg (not_not.mpr hpeer), if_neg (not_not.mpr huri),
    if_neg (not_not.mpr rfl)]
  exact bind_eq_ok_iff.mpr ⟨true, by rw [hverify]; rfl, rfl⟩

theorem verifyCertPop_ownRequest (hserves : Serves issuer client) (privateKey : client.PrivateKey)
    (nonce : String) (csr : GeneratedCsr) :
    verifyCertPop issuer.keys (fromBase64 (ownRequest client privateKey nonce csr).ed25519PublicKeyB64)
      (issuer.popFields (ownRequest client privateKey nonce csr) csr.csrPublicKeyHash)
      (ownRequest client privateKey nonce csr).popSignatureB64 issuer.caFingerprint = .ok () := by
  have hraw : issuer.keys.publicKeyFromRaw
      (fromBase64 (ownRequest client privateKey nonce csr).ed25519PublicKeyB64) =
        .ok (client.publicKey privateKey) :=
    (congrArg _ (fromBase64_toBase64 _)).trans (hserves.raw privateKey).2
  have hsignature : fromBase64 (ownRequest client privateKey nonce csr).popSignatureB64 =
      client.sign privateKey (buildCertPopMessage
        (issuer.popFields (ownRequest client privateKey nonce csr) csr.csrPublicKeyHash)) :=
    fromBase64_toBase64 _
  refine verifyCertPop_eq_ok_of hraw (hserves.type privateKey) rfl (peerIdToSpiffeUri_eq _) ?_
  rw [hsignature]
  exact hserves.verifies privateKey _

theorem signNodeCertFromCsr_own (hserves : Serves issuer client)
    (hips : ∀ ip ∈ ips, ∃ bytes, forge.bytesFromIP ip = some bytes) (drawn : client.TlsKeys)
    (hostname spiffeUri serial : String) (now : Int) :
    ∃ signed, signNodeCertFromCsr forge issuer.ca (client.certificationRequestToPem drawn hostname)
      spiffeUri ips serial now = .ok signed ∧
        signed.certificate.publicKey = client.tlsPublicKey drawn := by
  obtain ⟨caKey, hcaKey, hsign⟩ := hserves.caKey
  obtain ⟨caCert, hcaCert, -⟩ := map_eq_ok_iff.mp issuer.isFingerprint
  obtain ⟨loopback, hloopback⟩ := mapM_ipName hserves.loopback
  obtain ⟨own, hown⟩ := mapM_ipName hips
  have hnames : altNames forge spiffeUri (some hostname) ips = .ok _ :=
    bind_eq_ok_iff.mpr ⟨loopback, hloopback, bind_eq_ok_iff.mpr ⟨own, hown, rfl⟩⟩
  obtain ⟨signature, hsignature⟩ := hsign
    { publicKey := client.tlsPublicKey drawn
      serialNumber := "01" ++ serial
      notBefore := now
      notAfter := forge.addDays now NODE_CERT_VALIDITY_DAYS
      subject := [("commonName", spiffeUri), ("organizationName", "thinklocal-mcp")]
      issuer := caCert.subject
      cA := false
      keyUsage := ["digitalSignature", "keyEncipherment"]
      extKeyUsage := ["serverAuth", "clientAuth"]
      altNames := _ }
  refine ⟨⟨_, signature⟩, bind_eq_ok_iff.mpr ⟨_, hserves.reads drawn hostname,
    bind_eq_ok_iff.mpr ⟨true, rfl, bind_eq_ok_iff.mpr ⟨caCert, hcaCert, bind_eq_ok_iff.mpr
      ⟨caKey, hcaKey, bind_eq_ok_iff.mpr ⟨_, hnames, bind_eq_ok_iff.mpr
        ⟨signature, hsignature, rfl⟩⟩⟩⟩⟩⟩, rfl⟩

theorem issueCert_ownRequest (hserves : Serves issuer client)
    (hcsr : generateNodeKeypairAndCsr client hostname drawn = .ok csr)
    (hips : ∀ ip ∈ ips, ∃ bytes, forge.bytesFromIP ip = some bytes) (serial : String) (now : Int) :
    ∃ signed, issuer.issueCert (ownRequest client privateKey nonce csr) ips serial now = .ok signed ∧
      signed.certificate.publicKey = client.tlsPublicKey drawn := by
  obtain ⟨hash, hhash, hcsr⟩ := bind_eq_ok_iff.mp hcsr
  obtain rfl := pure_eq_ok_iff.mp hcsr
  have hkey : csrPublicKeyHash forge (client.certificationRequestToPem drawn hostname) = .ok hash := by
    simp only [csrPublicKeyHash, hserves.reads drawn hostname, hhash, Bind.bind, Except.bind, pure,
      Except.pure]
    rfl
  have hlength : (fromBase64 (toBase64 (client.raw (client.publicKey privateKey)))).length = 32 := by
    rw [fromBase64_toBase64]
    exact (hserves.raw privateKey).1
  have hpop := verifyCertPop_ownRequest hserves privateKey nonce
    ⟨client.certificationRequestToPem drawn hostname, client.privateKeyToPem drawn, hash⟩
  obtain ⟨signed, hsigned, hpublic⟩ := signNodeCertFromCsr_own hserves hips drawn hostname
    (ownRequest client privateKey nonce ⟨client.certificationRequestToPem drawn hostname,
      client.privateKeyToPem drawn, hash⟩).spiffeUri serial now
  refine ⟨signed, bind_eq_ok_iff.mpr ⟨hash, hkey, (if_neg (not_not.mpr hlength)).trans ?_⟩, hpublic⟩
  refine bind_eq_ok_iff.mpr ⟨(), ?_, ?_⟩
  · exact (congrArg _ hpop).trans rfl
  · exact (congrArg _ hsigned).trans rfl

/-! ### The texts of an exchange -/

/-- An object of texts is read as it was written. -/
theorem parse_texts (names : List String) (fields : List (String × String))
    (hnames : fields.map Prod.fst = names)
    (horder : names.Nodup ∧ names.Pairwise fun a b => Json.precedes b a = false) :
    Json.parse (Json.stringify 0 (.object (fields.map fun field => (field.1, .string field.2)))) =
      some (.object (fields.map fun field => (field.1, .string field.2))) := by
  have hkeys : (fields.map fun field => (field.1, Json.string field.2)).map Prod.fst = names := by
    rw [List.map_map]
    exact hnames
  refine Json.parse_stringify_of_representable 0 ?_
  rw [Json.Representable]
  refine ⟨⟨hkeys ▸ horder.1, hkeys ▸ horder.2⟩, Json.representableFields_iff.mpr fun field hfield => ?_⟩
  obtain ⟨source, -, rfl⟩ := List.mem_map.mp hfield
  trivial

theorem signBody_json (req : CertSignRequest) :
    (Json.parse (Json.stringify 0 req.json)).bind signBody = some req := by
  have hparse := parse_texts
    ["peerId", "ed25519PublicKeyB64", "spiffeUri", "nonce", "csrPem", "popSignatureB64"]
    [("peerId", req.peerId), ("ed25519PublicKeyB64", req.ed25519PublicKeyB64),
      ("spiffeUri", req.spiffeUri), ("nonce", req.nonce), ("csrPem", req.csrPem),
      ("popSignatureB64", req.popSignatureB64)] rfl (by decide)
  exact (congrArg (Option.bind · signBody) hparse).trans rfl

theorem nonceAnswer_nonceReply (nonce : String) :
    nonceAnswer client (nonceReply issuer true true (some nonce)) =
      .ok (nonce, issuer.caFingerprint) := by
  have hparse := parse_texts ["nonce", "caFingerprint"]
    [("nonce", nonce), ("caFingerprint", issuer.caFingerprint)] rfl (by decide)
  have hjson : replyJson client (nonceReply issuer true true (some nonce)) =
      .ok (.object [("nonce", .string nonce), ("caFingerprint", .string issuer.caFingerprint)]) := by
    unfold replyJson
    rw [show Json.parse (nonceReply issuer true true (some nonce)).text = _ from hparse]
    rfl
  exact bind_eq_ok_iff.mpr ⟨_, hjson, rfl⟩

theorem signRequest_nonceReply (hcsr : generateNodeKeypairAndCsr client hostname drawn = .ok csr)
    (peerId : String) :
    signRequest client privateKey peerId hostname (nonceReply issuer true true (some nonce)) drawn =
      .ok (buildCertSignRequest client privateKey peerId issuer.caFingerprint nonce csr,
        certPopFields peerId issuer.caFingerprint nonce csr, csr) :=
  bind_eq_ok_iff.mpr ⟨_, nonceAnswer_nonceReply nonce, bind_eq_ok_iff.mpr ⟨csr, hcsr, rfl⟩⟩

theorem certAnswer_signReply {signed : SignedCertificate forge}
    (hpem : forge.certificateToPem signed.certificate signed.signature ≠ "") :
    certAnswer client (signReply (.ok signed)) =
      .ok (.string (forge.certificateToPem signed.certificate signed.signature)) := by
  have hparse := parse_texts ["certPem"]
    [("certPem", forge.certificateToPem signed.certificate signed.signature)] rfl (by decide)
  have hjson : replyJson client (signReply (.ok signed)) = .ok (.object
      [("certPem", .string (forge.certificateToPem signed.certificate signed.signature))]) := by
    unfold replyJson
    rw [show Json.parse (signReply (.ok signed)).text = _ from hparse]
    rfl
  refine bind_eq_ok_iff.mpr ⟨_, hjson, ?_⟩
  exact (if_pos (decide_eq_true hpem)).trans rfl

/-! ### The calls between -/

/-- A call leaves a nonce alone until its end. -/
def Spares (nonce : String) (expiresAt : Int) : IssuanceAction → Prop
  | .issue gcTime _ other => gcTime ≤ expiresAt ∧ other ≠ nonce
  | .request req _ _ => req.nonce ≠ nonce
  | .answer _ _ _ => True

instance (nonce : String) (expiresAt : Int) : DecidablePred (Spares nonce expiresAt)
  | .issue gcTime _ other => inferInstanceAs (Decidable (gcTime ≤ expiresAt ∧ other ≠ nonce))
  | .request req _ _ => inferInstanceAs (Decidable (req.nonce ≠ nonce))
  | .answer _ _ _ => .isTrue trivial

theorem stored_of_given {store : NonceStore} {gcTime time : Int}
    (hgiven : (store.issue gcTime time nonce).2 = some nonce) :
    (store.issue gcTime time nonce).1.nonces.get nonce = some (time + store.ttlMs) := by
  rcases store.issue_cases gcTime time nonce with hthrown | ⟨-, -, hnonces⟩
  · rw [hthrown] at hgiven
    cases hgiven
  · rw [hnonces, InsertionMap.get_set_self]

theorem stored_step {ca ca' : IssuerState forge} {action : IssuanceAction} {expiresAt : Int}
    (hstored : ca.nonceStore.nonces.get nonce = some expiresAt) (hspares : Spares nonce expiresAt action)
    (h : ca.step issuer action = some ca') : ca'.nonceStore.nonces.get nonce = some expiresAt := by
  cases action with
  | issue gcTime time other =>
      obtain rfl := Option.some.inj h
      -- the nonce is not expired at the clean-up
      have hkept : (ca.nonceStore.gc gcTime).nonces.get nonce = some expiresAt := by
        have hget : (ca.nonceStore.gc gcTime).nonces.get nonce = _ :=
          ca.nonceStore.nonces.get_filter _ nonce
        rw [hget, hstored]
        have hin : ¬ expiresAt < gcTime := not_lt.mpr hspares.1
        simp [hin]
      rcases ca.nonceStore.issue_cases gcTime time other with hthrown | ⟨-, -, hnonces⟩
      · dsimp only
        rw [hthrown]
        exact hkept
      · dsimp only
        rw [hnonces, InsertionMap.get_set_of_ne _ _ hspares.2.symm]
        exact hkept
  | request req ipAddresses time =>
      obtain rfl := Option.some.inj h
      dsimp only [NonceStore.consume]
      cases hget : ca.nonceStore.nonces.get req.nonce with
      | none => exact hstored
      | some found =>
          exact (InsertionMap.get_delete_of_ne _ (Ne.symm hspares)).trans hstored
  | answer index serial now =>
      simp only [IssuerState.step, IssuerState.answer] at h
      split at h
      · cases h
      · obtain rfl := Option.some.inj h
        exact hstored

/-- What each of these calls keeps, a run of them keeps. -/
theorem kept_runFrom {I : IssuerState forge → Prop} {C : IssuanceAction → Prop}
    (hstep : ∀ ca action ca', I ca → C action → ca.step issuer action = some ca' → I ca')
    {ca ca' : IssuerState forge} {actions : List IssuanceAction} (hca : I ca)
    (hactions : ∀ action ∈ actions, C action)
    (h : (issuanceMachine issuer ttlMs maxEntries).runFrom ca actions = some ca') : I ca' := by
  induction actions generalizing ca with
  | nil =>
      obtain rfl := Option.some.inj h
      exact hca
  | cons action actions ih =>
      obtain ⟨next, hnext, hrest⟩ := Option.bind_eq_some_iff.mp h
      have hfirst := hstep ca action next hca (hactions action List.mem_cons_self) hnext
      exact ih hfirst (fun other hother => hactions other (List.mem_cons_of_mem _ hother)) hrest

theorem stored_runFrom {ca ca' : IssuerState forge} {actions : List IssuanceAction} {expiresAt : Int}
    (hstored : ca.nonceStore.nonces.get nonce = some expiresAt)
    (hspares : ∀ action ∈ actions, Spares nonce expiresAt action)
    (h : (issuanceMachine issuer ttlMs maxEntries).runFrom ca actions = some ca') :
    ca'.nonceStore.nonces.get nonce = some expiresAt :=
  kept_runFrom (I := fun ca => ca.nonceStore.nonces.get nonce = some expiresAt)
    (fun _ _ _ hget hspare hstep => stored_step hget hspare hstep) hstored hspares h

variable (issuer) in
/-- The attempt waits for its answer, or it has a certificate for a key. -/
def Served (attempt : Attempt) (key : forge.Key) (ca : IssuerState forge) : Prop :=
  attempt ∈ ca.pending ∨ ∃ granted ∈ ca.certificates, granted.attempt = attempt ∧
    granted.signed.certificate.publicKey = key ∧
      Proven issuer attempt.req granted.signed.certificate

theorem served_step {ca ca' : IssuerState forge} {action : IssuanceAction} {attempt : Attempt}
    {key : forge.Key}
    (hissues : ∀ serial now, ∃ signed, issuer.issueCert attempt.req attempt.ipAddresses serial now =
      .ok signed ∧ signed.certificate.publicKey = key)
    (hserved : Served issuer attempt key ca) (h : ca.step issuer action = some ca') :
    Served issuer attempt key ca' := by
  cases action with
  | issue gcTime time other =>
      obtain rfl := Option.some.inj h
      exact hserved
  | request req ipAddresses time =>
      obtain rfl := Option.some.inj h
      refine hserved.imp_left fun hpending => ?_
      dsimp only
      split_ifs
      · exact List.mem_cons_of_mem _ hpending
      · exact hpending
  | answer index serial now =>
      simp only [IssuerState.step, IssuerState.answer] at h
      split at h
      · cases h
      · next answered hanswered =>
          obtain rfl := Option.some.inj h
          rcases hserved with hpending | ⟨granted, hgranted, hrest⟩
          · -- the request that is answered is the one in question or another one
            by_cases heq : answered = attempt
            · subst heq
              obtain ⟨signed, hsigned, hkey⟩ := hissues serial now
              refine .inr ⟨⟨answered, signed⟩, ?_, rfl, hkey, proven_of_issueCert hsigned⟩
              dsimp only
              rw [hsigned]
              exact List.mem_cons_self
            · refine .inl (List.mem_eraseIdx_iff_getElem?.mpr ?_)
              obtain ⟨i, hi⟩ := List.getElem?_of_mem hpending
              refine ⟨i, ?_, hi⟩
              rintro rfl
              exact heq (Option.some.inj (hanswered.symm.trans hi))
          · refine .inr ⟨granted, ?_, hrest⟩
            dsimp only
            split
            · exact List.mem_cons_of_mem _ hgranted
            · exact hgranted

theorem served_runFrom {ca ca' : IssuerState forge} {actions : List IssuanceAction}
    (attempt : Attempt) {key : forge.Key}
    (hissues : ∀ serial now, ∃ signed, issuer.issueCert attempt.req attempt.ipAddresses serial now =
      .ok signed ∧ signed.certificate.publicKey = key)
    (hserved : Served issuer attempt key ca)
    (h : (issuanceMachine issuer ttlMs maxEntries).runFrom ca actions = some ca') :
    Served issuer attempt key ca' :=
  kept_runFrom (C := fun _ => True) (fun _ _ _ hca _ hstep => served_step hissues hca hstep)
    hserved (fun _ _ => trivial) h

theorem answer_of_issued {ca : IssuerState forge} {index : Nat} {attempt : Attempt} {serial : String}
    {now : Int} {signed : SignedCertificate forge} (hattempt : ca.pending[index]? = some attempt)
    (hissued : issuer.issueCert attempt.req attempt.ipAddresses serial now = .ok signed) :
    ca.step issuer (.answer index serial now) = some { ca with
      pending := ca.pending.eraseIdx index
      certificates := ⟨attempt, signed⟩ :: ca.certificates } := by
  simp only [IssuerState.step, IssuerState.answer, hattempt, hissued]

theorem step_call (nodes : P → Applicant issuer client) {action : IssuanceAction}
    {ca' : IssuerState forge} (h : s.ca.step issuer action = some ca') :
    s.step nodes (.call action) = some { s with ca := ca' } := by
  simp only [JoinState.step, h, Option.map_some]

/-- A node whose nonce reaches it, and whose request arrives before the nonce ends, is served if no call
between takes the nonce away; what it then has is a certificate for its own key. -/
theorem exchange_served (hserves : Serves issuer client)
    (hcsr : generateNodeKeypairAndCsr client hostname drawn = .ok csr)
    (hips : ∀ ip ∈ ips, ∃ bytes, forge.bytesFromIP ip = some bytes)
    {ca ca₁ ca₂ : IssuerState forge} {gcTime time arrival : Int} {before after : List IssuanceAction}
    (hgiven : (ca.nonceStore.issue gcTime time nonce).2 = some nonce)
    (hspares : ∀ action ∈ before, Spares nonce (time + ca.nonceStore.ttlMs) action)
    (hbefore : (issuanceMachine issuer ttlMs maxEntries).runFrom ca
      (.issue gcTime time nonce :: before) = some ca₁)
    (harrival : arrival ≤ time + ca.nonceStore.ttlMs)
    (hafter : (issuanceMachine issuer ttlMs maxEntries).runFrom ca₁
      (.request (ownRequest client privateKey nonce csr) ips arrival :: after) = some ca₂) :
    (Json.parse (Json.stringify 0 (ownRequest client privateKey nonce csr).json)).bind signBody =
      some (ownRequest client privateKey nonce csr) ∧
    (⟨ownRequest client privateKey nonce csr, ips, arrival⟩ ∈ ca₂.pending ∨
      ∃ granted ∈ ca₂.certificates,
        granted.attempt = ⟨ownRequest client privateKey nonce csr, ips, arrival⟩ ∧
        granted.signed.certificate.publicKey = client.tlsPublicKey drawn ∧
        .uri (ownRequest client privateKey nonce csr).spiffeUri ∈
          granted.signed.certificate.altNames ∧
        requestNodeCert client privateKey
          (issuer.keys.peerIdFromPublicKey (client.publicKey privateKey)) hostname
          (nonceReply issuer true true (some nonce)) drawn (signReply (.ok granted.signed)) =
          .ok ⟨.string (forge.certificateToPem granted.signed.certificate granted.signed.signature),
            csr.keyPem, (ownRequest client privateKey nonce csr).spiffeUri⟩) := by
  obtain ⟨given, hissue, hbefore⟩ := Option.bind_eq_some_iff.mp hbefore
  obtain ⟨requested, hrequest, hafter⟩ := Option.bind_eq_some_iff.mp hafter
  obtain rfl := Option.some.inj hissue
  -- no call between takes the nonce away, so the request waits
  have hkept := stored_runFrom (stored_of_given hgiven) hspares hbefore
  have hconsumed : (ca₁.nonceStore.consume arrival nonce).2 = true := by
    rw [NonceStore.consume, hkept]
    exact decide_eq_true harrival
  obtain rfl := Option.some.inj hrequest
  refine ⟨signBody_json _, ?_⟩
  have hserved := served_runFrom ⟨ownRequest client privateKey nonce csr, ips, arrival⟩
    (fun serial now => issueCert_ownRequest hserves hcsr hips serial now)
    (.inl (by
      dsimp only
      rw [show (ownRequest client privateKey nonce csr).nonce = nonce from rfl, if_pos hconsumed]
      exact List.mem_cons_self)) hafter
  refine hserved.imp_right ?_
  rintro ⟨granted, hgranted, hattempt, hkey, hproven⟩
  refine ⟨granted, hgranted, hattempt, hkey, hproven.carriesUri, ?_⟩
  exact bind_eq_ok_iff.mpr ⟨_, signRequest_nonceReply hcsr _, bind_eq_ok_iff.mpr
    ⟨_, certAnswer_signReply (hserves.toPem _ _), rfl⟩⟩

end Machine

/-! ## An exchange -/

/-- Keys whose signatures are the key and the message. -/
def tagKeys : PeerKeys where
  PublicKey := Bytes
  publicKeyFromRaw := fun raw => .ok raw
  type := fun _ => "Ed25519"
  peerIdFromPublicKey := toBase64
  verify := fun pubKey message signature => .ok (signature = pubKey ++ message)
  toUpperCase := id

/-- Requests whose first letter is their key. -/
def tagForge : Forge where
  Key := Char
  CaKey := Unit
  certificationRequestFromPem := fun csrPem =>
    match csrPem.toList with
    | [] => .error "Invalid PEM formatted message."
    | key :: commonName => .ok ⟨.ok true, some key, some (String.ofList commonName)⟩
  publicKeyToDer := fun key => .ok (encodeUtf8 [key])
  certificateFromPem := fun _ => .ok ⟨[], []⟩
  privateKeyFromPem := fun _ => .ok ()
  bytesFromIP := fun _ => some []
  sign := fun _ _ => .ok []
  certificateToPem := fun _ _ => "certificate"
  sha256Hex := toBase64
  addDays := fun now days => now + days * 86400000

def tagIssuer : CertIssuer tagForge := ⟨tagKeys, ⟨"ca", "key"⟩, toBase64 [], rfl⟩

def tagClient : ClientLib tagForge tagIssuer.keys where
  PrivateKey := UInt8
  publicKey := fun byte => List.replicate 32 byte
  raw := id
  sign := fun byte message => List.replicate 32 byte ++ message
  TlsKeys := Char
  tlsPublicKey := id
  certificationRequestToPem := fun key commonName => String.ofList (key :: commonName.toList)
  privateKeyToPem := fun key => String.singleton key
  syntaxError := id
  typeError := "Cannot destructure property 'certPem'"

theorem tagClient_serves : Serves tagIssuer tagClient where
  reads drawn commonName := by
    simp only [tagForge, tagClient, String.toList_ofList, String.ofList_toList]
    rfl
  raw privateKey := ⟨List.length_replicate, rfl⟩
  type _ := rfl
  verifies privateKey message := congrArg Except.ok (decide_eq_true rfl)
  caKey := ⟨(), rfl, fun _ => ⟨[], rfl⟩⟩
  loopback _ _ := ⟨[], rfl⟩
  toPem _ _ := (by decide : "certificate" ≠ "")

def tagCsr : GeneratedCsr := ⟨"khost", "k", toBase64 (encodeUtf8 ['k'])⟩

def tagIssuance : Machine (IssuerState tagForge) IssuanceAction := issuanceMachine tagIssuer 10 2

/-- Another nonce and a request with a third one come in between. -/
def untilAsked : List IssuanceAction :=
  [.issue 0 0 "n", .issue 1 1 "m", .request ⟨"", "", "", "x", "", ""⟩ [] 3]

def tagRequest : CertSignRequest := ownRequest tagClient (7 : UInt8) "n" tagCsr

theorem exchange_served_tag :
    ∃ granted : Granted tagForge, granted.attempt.req = tagRequest ∧
      granted.signed.certificate.publicKey = 'k' ∧
      (Json.parse (Json.stringify 0 tagRequest.json)).bind signBody = some tagRequest := by
  obtain ⟨ca₁, hbefore⟩ := Option.isSome_iff_exists.mp
    (by decide +kernel : (tagIssuance.runFrom tagIssuance.init untilAsked).isSome)
  have hpending : ((tagIssuance.runFrom tagIssuance.init untilAsked).bind fun ca =>
      tagIssuance.runFrom ca [.request tagRequest [] 10, .answer 0 "1" 20]).map
        (·.pending.length) = some 0 := by decide +kernel
  rw [hbefore, Option.bind_some] at hpending
  obtain ⟨ca₂, hafter, hlength⟩ := Option.map_eq_some_iff.mp hpending
  have hcsr : generateNodeKeypairAndCsr tagClient "host" 'k' = .ok tagCsr := rfl
  obtain ⟨hbody, hserved⟩ := exchange_served tagClient_serves hcsr (by simp) (by decide) (by decide)
    hbefore (by decide) hafter
  rcases hserved with hpending | ⟨granted, -, hattempt, hkey, -⟩
  · rw [List.length_eq_zero_iff.mp hlength] at hpending
    cases hpending
  · exact ⟨granted, congrArg Attempt.req hattempt, hkey, hbody⟩

/-! ## A certificate that was asked for -/

def tagNodes (_ : Unit) : Applicant tagIssuer tagClient := ⟨(7 : UInt8), "host"⟩

theorem toBase64_injective {first second : Bytes} (h : toBase64 first = toBase64 second) :
    first = second := by
  have hbytes := congrArg fromBase64 h
  rwa [fromBase64_toBase64, fromBase64_toBase64] at hbytes

theorem peerIdsTell_tagNodes : PeerIdsTell tagNodes := fun _ _ _ h => toBase64_injective h

def tagFields : CertPopFields :=
  certPopFields (tagNodes ()).peerId tagIssuer.caFingerprint "n" tagCsr

theorem fit_tagFields : tagFields.Fit := by
  have hall : (tagFields.texts.all fun text => (encodeUtf8 text.toList).length < 2 ^ 32) = true := by
    decide +kernel
  exact fun text htext => of_decide_eq_true (List.all_eq_true.mp hall text htext)

def tagJoins : Machine (JoinState tagIssuer tagClient Unit) (JoinAction tagIssuer tagClient Unit) :=
  joins tagNodes 10 2

/-- The node has asked, has signed something else, and its request has arrived. -/
def tagRequested : JoinState tagIssuer tagClient Unit :=
  { ca := ⟨(((NonceStore.empty 10 2).issue 0 0 "n").1.consume 5 "n").1, [("n", 10)],
      [⟨tagRequest, [], 5⟩], []⟩
    sessions := [⟨(), tagFields, 'k'⟩]
    signed := [((), [1, 2, 3]), ((), buildCertPopMessage tagFields)] }

/-- Only an answer and a signature are looked at. -/
theorem unforged_of_ne {s : JoinState tagIssuer tagClient Unit}
    {a : JoinAction tagIssuer tagClient Unit}
    (hanswer : ∀ index serial now, a ≠ .call (.answer index serial now))
    (hsigns : ∀ node message, a ≠ .signs node message) : Unforged tagNodes s a where
  made index serial now _ _ _ h := absurd h (hanswer index serial now)
  separate node message h := absurd h (hsigns node message)

theorem tagRequested_reachable : tagJoins.ReachableUnder (Unforged tagNodes) tagRequested := by
  have hcsr : generateNodeKeypairAndCsr tagClient "host" 'k' = .ok tagCsr := rfl
  have hissue := Machine.ReachableUnder.init.step (M := tagJoins)
    (unforged_of_ne (a := .call (.issue 0 0 "n")) (by simp) (by simp)) rfl
  have hasks := hissue.step
    (unforged_of_ne (a := .asks () (nonceReply tagIssuer true true (some "n")) 'k') (by simp)
      (by simp))
    (by
      simp only [tagJoins, joins, JoinState.step]
      rw [show signRequest tagClient (tagNodes ()).privateKey (tagNodes ()).peerId
        (tagNodes ()).hostname _ 'k' = _ from signRequest_nonceReply hcsr _])
  have hsigns := hasks.step (a := .signs () [1, 2, 3]) ⟨by simp, fun node message h => by
    obtain ⟨-, rfl⟩ := JoinAction.signs.inj h
    decide +kernel⟩ rfl
  exact hsigns.step (unforged_of_ne (a := .call (.request tagRequest [] 5)) (by simp) (by simp)) rfl

theorem unforged_tagRequested :
    Unforged tagNodes tagRequested (.call (.answer 0 "1" 6)) where
  made index serial now attempt node message haction hattempt hverify := by
    cases haction
    obtain rfl := Option.some.inj hattempt
    have hsignature := of_decide_eq_true (Except.ok.inj hverify)
    have hmade : fromBase64 tagRequest.popSignatureB64 =
        List.replicate 32 7 ++ buildCertPopMessage tagFields := fromBase64_toBase64 _
    obtain rfl := List.append_cancel_left (hmade.symm.trans hsignature)
    exact List.mem_cons_of_mem _ (List.mem_singleton_self _)
  separate _ _ h := by cases h

theorem issuance_authentic_tag :
    ∃ s granted, tagJoins.step tagRequested (.call (.answer 0 "1" 6)) = some s ∧
      s.ca.certificates = [granted] ∧ AskedFor s () granted := by
  have hcsr : generateNodeKeypairAndCsr tagClient "host" 'k' = .ok tagCsr := rfl
  obtain ⟨signed, hsigned, hkey⟩ : ∃ signed, tagIssuer.issueCert tagRequest [] "1" 6 = .ok signed ∧
      signed.certificate.publicKey = 'k' := issueCert_ownRequest tagClient_serves hcsr (by simp) "1" 6
  have hpending : tagRequested.ca.pending[0]? = some ⟨tagRequest, [], 5⟩ := rfl
  obtain ⟨s, hs⟩ : ∃ s, JoinState.step tagNodes tagRequested (.call (.answer 0 "1" 6)) = some s :=
    ⟨_, step_call tagNodes (answer_of_issued hpending hsigned)⟩
  have hstep : tagJoins.step tagRequested (.call (.answer 0 "1" 6)) = some s := hs
  rw [step_call tagNodes (answer_of_issued hpending hsigned)] at hs
  obtain rfl := Option.some.inj hs
  refine ⟨_, _, hstep, rfl, ?_⟩
  refine (issuance_authentic peerIdsTell_tagNodes
    (tagRequested_reachable.step unforged_tagRequested hstep) ?_).1 _ (List.mem_singleton_self _) () ?_
  · -- there is one certificate and one session
    have hone : ∀ granted ∈ [(⟨⟨tagRequest, [], 5⟩, signed⟩ : Granted tagForge)], granted = _ :=
      fun granted => List.mem_singleton.mp
    have hsession : ∀ session ∈ tagRequested.sessions, session = _ :=
      fun session => List.mem_singleton.mp
    exact {
      sessions := by
        intro session hmem
        obtain rfl := hsession session hmem
        exact fit_tagFields
      certificates := by
        intro granted hmem hash hhash
        obtain rfl := hone granted hmem
        rw [hkey] at hhash
        obtain rfl := Except.ok.inj hhash
        exact fit_tagFields
      hashes := by
        intro granted hmem session hmem' _ _ _
        obtain rfl := hone granted hmem
        obtain rfl := hsession session hmem'
        exact hkey }
  · exact (proven_of_issueCert hsigned).carriesUri

end ThinkLocal.Issuance
