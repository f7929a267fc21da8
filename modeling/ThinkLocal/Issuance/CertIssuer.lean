import ThinkLocal.Foundation.Except
import ThinkLocal.Foundation.InsertionMap
import ThinkLocal.Foundation.Segments
import ThinkLocal.Issuance.CertPop

/-!
# The issuer of certificates

`cert-issuer.ts`: the nonces and the signing of a node's certificate.  Keys, certificate requests and
certificates are those of `node-forge`; what it throws is the error of an `Except`.
-/

namespace ThinkLocal.Issuance

open Js Foundation

/-! ## Nonces -/

/-- `NonceStore`, with the end of each nonce. -/
structure NonceStore where
  ttlMs : Int
  maxEntries : Nat
  nonces : InsertionMap String Int
  bounded : nonces.size ≤ maxEntries

namespace NonceStore

def empty (ttlMs : Int) (maxEntries : Nat) : NonceStore := ⟨ttlMs, maxEntries, .empty, Nat.zero_le _⟩

/-- `gc` at a reading of the clock. -/
def gc (store : NonceStore) (time : Int) : NonceStore where
  ttlMs := store.ttlMs
  maxEntries := store.maxEntries
  nonces := store.nonces.filter fun _ expiresAt => ! (expiresAt < time)
  bounded := (store.nonces.size_filter_le _).trans store.bounded

/-- `issue`, with the two readings of the clock and the nonce that is drawn; no nonce where it
throws. -/
def issue (store : NonceStore) (gcTime time : Int) (nonce : String) :
    NonceStore × Option String :=
  let kept := store.gc gcTime
  if h : kept.maxEntries ≤ kept.nonces.size then (kept, none)
  else
    ({ kept with
        nonces := kept.nonces.set nonce (time + kept.ttlMs)
        bounded := (kept.nonces.size_set_le _ _).trans (Nat.lt_of_not_le h) }, some nonce)

/-- `consume`. -/
def consume (store : NonceStore) (time : Int) (nonce : String) : NonceStore × Bool :=
  match store.nonces.get nonce with
  | none => (store, false)
  | some expiresAt =>
      ({ store with
          nonces := store.nonces.delete nonce
          bounded := (store.nonces.size_delete_le nonce).trans store.bounded },
        time ≤ expiresAt)

end NonceStore

/-! ## Certificates -/

structure CaBundle where
  caCertPem : String
  caKeyPem : String

inductive AltName
  | uri (value : String)
  | dns (value : String)
  | ip (bytes : Bytes)
deriving DecidableEq

/-- A certificate of a node before it is signed. -/
structure NodeCertificate (Key : Type) where
  publicKey : Key
  serialNumber : String
  notBefore : Int
  notAfter : Int
  subject : List (String × String)
  issuer : List (String × String)
  cA : Bool
  keyUsage : List String
  extKeyUsage : List String
  altNames : List AltName

structure CaCertificate where
  der : Bytes
  subject : List (String × String)

structure Csr (Key : Type) where
  /-- `csr.verify()`. -/
  verify : Except String Bool
  publicKey : Option Key
  /-- `csr.subject.getField('CN')?.value`. -/
  commonName : Option String

/-- What is taken from `node-forge` and from the runtime. -/
structure Forge where
  Key : Type
  CaKey : Type
  certificationRequestFromPem : String → Except String (Csr Key)
  /-- The `SubjectPublicKeyInfo` of a key. -/
  publicKeyToDer : Key → Except String Bytes
  certificateFromPem : String → Except String CaCertificate
  privateKeyFromPem : String → Except String CaKey
  /-- The bytes of an address, `none` for a text that is none. -/
  bytesFromIP : String → Option Bytes
  sign : CaKey → NodeCertificate Key → Except String Bytes
  /-- The text of a certificate with its signature. -/
  certificateToPem : NodeCertificate Key → Bytes → String
  sha256Hex : Bytes → String
  /-- `setDate(getDate() + days)` in the zone of the clock. -/
  addDays : Int → Nat → Int

variable (forge : Forge)

def NODE_CERT_VALIDITY_DAYS : Nat := 90

def publicKeyDerHash (publicKey : forge.Key) : Except String String :=
  (forge.publicKeyToDer publicKey).map forge.sha256Hex

def certFingerprint (certPem : String) : Except String String :=
  (forge.certificateFromPem certPem).map fun cert => forge.sha256Hex cert.der

/-- One label of `HOSTNAME_RE`. -/
def isLabel (label : List Char) : Bool :=
  label ≠ [] ∧ label.length ≤ 63 ∧ label.all (fun c => c.isAlphanum || c = '-') ∧
    label.head?.all Char.isAlphanum ∧ label.getLast?.all Char.isAlphanum

/-- `HOSTNAME_RE.test(name)`. -/
def isHostname (name : String) : Bool :=
  1 ≤ name.toList.length ∧ name.toList.length ≤ 253 ∧
    (segments '.' name).all fun label => isLabel label.toList

/-- The name of the applicant in its request, if it is a host of its own. -/
def csrHostname (commonName : Option String) (spiffeUri : String) : List AltName :=
  match commonName with
  | some csrCn =>
      if csrCn ≠ "" ∧ csrCn ≠ spiffeUri ∧ csrCn ≠ "localhost" ∧ isHostname csrCn then [.dns csrCn]
      else []
  | none => []

/-- The extension of an address; `node-forge` throws on a text that is none. -/
def ipName (ip : String) : Except String AltName :=
  match forge.bytesFromIP ip with
  | some bytes => .ok (.ip bytes)
  | none => .error "Extension \"ip\" value is not an IPv4 or IPv6 address."

/-- The alternative names of a certificate. -/
def altNames (spiffeUri : String) (commonName : Option String) (ipAddresses : List String) :
    Except String (List AltName) := do
  let loopback ← ["127.0.0.1", "::1"].mapM (ipName forge)
  let own ← ipAddresses.mapM (ipName forge)
  return [.uri spiffeUri, .dns "localhost"] ++ loopback ++ csrHostname commonName spiffeUri ++ own

/-- A certificate with its signature. -/
structure SignedCertificate where
  certificate : NodeCertificate forge.Key
  signature : Bytes

/-- `signNodeCertFromCsr`, with the serial number that is drawn and the reading of the clock. -/
def signNodeCertFromCsr (ca : CaBundle) (csrPem spiffeUri : String) (ipAddresses : List String)
    (serial : String) (now : Int) : Except String (SignedCertificate forge) := do
  let csr ← forge.certificationRequestFromPem csrPem
  if ! (← csr.verify) then .error "CSR-Selbstsignatur ungültig"
  else
    match csr.publicKey with
    | none => .error "CSR ohne Public-Key"
    | some publicKey => do
        let caCert ← forge.certificateFromPem ca.caCertPem
        let caKey ← forge.privateKeyFromPem ca.caKeyPem
        let altNames ← altNames forge spiffeUri csr.commonName ipAddresses
        let certificate : NodeCertificate forge.Key :=
          { publicKey, altNames
            serialNumber := "01" ++ serial
            notBefore := now
            notAfter := forge.addDays now NODE_CERT_VALIDITY_DAYS
            subject := [("commonName", spiffeUri), ("organizationName", "thinklocal-mcp")]
            issuer := caCert.subject
            cA := false
            keyUsage := ["digitalSignature", "keyEncipherment"]
            extKeyUsage := ["serverAuth", "clientAuth"] }
        let signature ← forge.sign caKey certificate
        return { certificate, signature }

/-! ## Requests -/

structure CertSignRequest where
  peerId : String
  ed25519PublicKeyB64 : String
  spiffeUri : String
  nonce : String
  csrPem : String
  popSignatureB64 : String

/-- `CertIssuer` without its nonces. -/
structure CertIssuer where
  keys : PeerKeys
  ca : CaBundle
  caFingerprint : String
  isFingerprint : certFingerprint forge ca.caCertPem = .ok caFingerprint

/-- The hash of the key of a request, or why there is none. -/
def csrPublicKeyHash (csrPem : String) : Except String String :=
  let parsed : Except String (Option String) := do
    let csr ← forge.certificationRequestFromPem csrPem
    if ! (← csr.verify) then return none
    else
      match csr.publicKey with
      | none => return none
      | some publicKey => return some (← publicKeyDerHash forge publicKey)
  match parsed with
  | .error message => .error ("CSR-Parsing fehlgeschlagen: " ++ message)
  | .ok none => .error "CSR-Selbstsignatur ungültig oder kein Public-Key"
  | .ok (some hash) => .ok hash

variable {forge}

/-- An error with a text in front of its message. -/
def prefixError {α : Type} (start : String) : Except String α → Except String α
  | .ok a => .ok a
  | .error message => .error (start ++ message)

/-- The fields that the proof of a request is checked for. -/
def CertIssuer.popFields (issuer : CertIssuer forge) (req : CertSignRequest) (hash : String) :
    CertPopFields :=
  ⟨issuer.caFingerprint, req.nonce, req.peerId, req.spiffeUri, hash⟩

/-- `verifyAndIssue` behind the nonce; an error is the reason of a refusal. -/
def CertIssuer.issueCert (issuer : CertIssuer forge) (req : CertSignRequest)
    (ipAddresses : List String) (serial : String) (now : Int) :
    Except String (SignedCertificate forge) := do
  let hash ← csrPublicKeyHash forge req.csrPem
  let ed25519Raw := fromBase64 req.ed25519PublicKeyB64
  if ed25519Raw.length ≠ 32 then .error "Ed25519-Public-Key muss raw 32 Byte lang sein"
  else do
    prefixError "PoP ungültig: " (verifyCertPop issuer.keys ed25519Raw
      (issuer.popFields req hash) req.popSignatureB64 issuer.caFingerprint)
    prefixError "Cert-Signing fehlgeschlagen: "
      (signNodeCertFromCsr forge issuer.ca req.csrPem req.spiffeUri ipAddresses serial now)

end ThinkLocal.Issuance
