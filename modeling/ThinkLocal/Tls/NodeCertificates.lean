import ThinkLocal.Tls.PeerChain

/-!
# The certificates of a node

`createMeshCA` and `createNodeCert` of `tls.ts`, and what the other functions read back out of the
texts.  Keys, signatures and texts are those of `node-forge`.
-/

namespace ThinkLocal.Tls

structure AltName where
  type : ℕ
  value : String
deriving DecidableEq

structure CaBundle where
  caCertPem : String
  caKeyPem : String
deriving DecidableEq

structure NodeCertBundle where
  certPem : String
  keyPem : String
  caCertPem : String
deriving DecidableEq

def CA_VALIDITY_DAYS : ℕ := 365

def NODE_CERT_VALIDITY_DAYS : ℕ := 90

/-- The fields that are set before a certificate is signed. -/
structure CertTemplate (PublicKey : Type) where
  publicKey : PublicKey
  serialNumber : String
  notBefore : ℤ
  notAfter : ℤ
  commonName : String
  organizationName : String := "thinklocal-mcp"
  cA : Bool
  keyUsage : List String
  extKeyUsage : List String := []
  altNames : Option (List AltName) := none
deriving DecidableEq

/-- What `tls.ts` takes from `node-forge` to make certificates. -/
structure CertForge extends Forge where
  PublicKey : Type
  decEq : DecidableEq PublicKey
  PrivateKey : Type
  publicKey : Certificate → PublicKey
  /-- `setRsaPublicKey(priv.n, priv.e)`. -/
  publicOf : PrivateKey → PublicKey
  privateKeyFromPem : String → Option PrivateKey
  privateKeyToPem : PrivateKey → String
  commonName : Certificate → Option String
  /-- `altNames` of the extension `subjectAltName`. -/
  altNames : Certificate → Option (List AltName)
  /-- The text of a template signed with a key: by the subject of a certificate or by its own. -/
  signedPem : Option Certificate → PrivateKey → CertTemplate PublicKey → Option String
  /-- `setDate(getDate() + days)`. -/
  addDays : ℤ → ℕ → ℤ

/-- What is drawn when a certificate is made. -/
structure Draw (PrivateKey : Type) where
  serialNumber : String
  keys : PrivateKey

variable (forge : CertForge)

/-- `serial` is the number that a suffix is cut from where there is no `nodeId`. -/
def createMeshCA (now : ℤ) (draw : Draw forge.PrivateKey) (meshName : String)
    (nodeId : Option String) (serial : String) : Option CaBundle :=
  let template : CertTemplate forge.PublicKey :=
    { publicKey := forge.publicOf draw.keys
      serialNumber := draw.serialNumber
      notBefore := now
      notAfter := forge.addDays now CA_VALIDITY_DAYS
      commonName := meshName ++ " Mesh CA " ++ nodeId.getD (String.ofList (serial.toList.take 16))
      cA := true
      keyUsage := ["keyCertSign", "cRLSign"] }
  (forge.signedPem none draw.keys template).map fun pem => ⟨pem, forge.privateKeyToPem draw.keys⟩

/-- The key of a certificate: the existing one, or one that is drawn. -/
def keyOrDrawn (existingKeyPem : Option String) (draw : Draw forge.PrivateKey) :
    Option (forge.PublicKey × String) :=
  match existingKeyPem with
  | none | some "" => some (forge.publicOf draw.keys, forge.privateKeyToPem draw.keys)
  | some pem => (forge.privateKeyFromPem pem).map fun priv => (forge.publicOf priv, pem)

def nodeTemplate (now : ℤ) (draw : Draw forge.PrivateKey) (publicKey : forge.PublicKey)
    (hostname spiffeUri : String) (ipAddresses : List String) : CertTemplate forge.PublicKey where
  publicKey := publicKey
  serialNumber := draw.serialNumber
  notBefore := now
  notAfter := forge.addDays now NODE_CERT_VALIDITY_DAYS
  commonName := hostname
  cA := false
  keyUsage := ["digitalSignature", "keyEncipherment"]
  extKeyUsage := ["serverAuth", "clientAuth"]
  altNames := some ([⟨2, hostname⟩, ⟨2, "localhost"⟩, ⟨6, spiffeUri⟩] ++ ipAddresses.map (⟨7, ·⟩))

def createNodeCert (now : ℤ) (draw : Draw forge.PrivateKey) (ca : CaBundle)
    (hostname spiffeUri : String) (ipAddresses : List String) (existingKeyPem : Option String) :
    Option NodeCertBundle := do
  let caCert ← forge.certificateFromPem ca.caCertPem
  let caKey ← forge.privateKeyFromPem ca.caKeyPem
  let (publicKey, keyPemOut) ← keyOrDrawn forge existingKeyPem draw
  let certPem ← forge.signedPem (some caCert) caKey
    (nodeTemplate forge now draw publicKey hostname spiffeUri ipAddresses)
  return ⟨certPem, keyPemOut, ca.caCertPem⟩

/-! ## Reading a certificate -/

/-- `value.startsWith(start)`. -/
def startsWith (value start : String) : Bool := start.toList.isPrefixOf value.toList

def isSpiffe (name : AltName) : Bool :=
  name.type = 6 && startsWith name.value "spiffe://thinklocal/"

def extractSpiffeUris (certPem : String) : List String :=
  match forge.certificateFromPem certPem with
  | none => []
  | some cert => (((forge.altNames cert).getD []).filter isSpiffe).map AltName.value

def extractSpiffeUri (certPem : String) : Option String := (extractSpiffeUris forge certPem).head?

/-- The comparison of `n` and `e`, with `false` where a text cannot be read. -/
def certKeyMatches (certPem keyPem : String) : Bool :=
  let verdict : Option Bool := do
    let privKey ← forge.privateKeyFromPem keyPem
    let cert ← forge.certificateFromPem certPem
    return (forge.decEq (forge.publicOf privKey) (forge.publicKey cert)).decide
  verdict.getD false

/-! ## What is signed can be read -/

/-- A certificate carries what its template had; its dates are whole seconds. -/
structure Carries (cert : forge.Certificate) (t : CertTemplate forge.PublicKey) : Prop where
  publicKey : forge.publicKey cert = t.publicKey
  altNames : forge.altNames cert = t.altNames
  commonName : forge.commonName cert = some t.commonName
  notBefore : forge.notBefore cert = t.notBefore / 1000 * 1000
  notAfter : forge.notAfter cert = t.notAfter / 1000 * 1000
  cA : forge.isCa cert = t.cA
  pathLen : forge.pathLenLimit cert = none

/-- What `node-forge` keeps of what it signs. -/
structure CertForge.Lawful : Prop where
  reads : ∀ {issuer key t pem}, forge.signedPem issuer key t = some pem →
    ∃ cert, forge.certificateFromPem pem = some cert ∧ Carries forge cert t
  readsKey : ∀ key, forge.privateKeyFromPem (forge.privateKeyToPem key) = some key
  readsNothing : forge.privateKeyFromPem "" = none
  verifies : ∀ {caCert key t pem cert}, forge.signedPem (some caCert) key t = some pem →
    forge.publicOf key = forge.publicKey caCert → forge.certificateFromPem pem = some cert →
    forge.verify caCert cert = some true
  addDays : ∀ now days, now + (days - 1) * 86400000 ≤ forge.addDays now days

variable {forge}

theorem certKeyMatches_iff {certPem keyPem : String} :
    certKeyMatches forge certPem keyPem = true ↔
      ∃ privKey cert, forge.privateKeyFromPem keyPem = some privKey ∧
        forge.certificateFromPem certPem = some cert ∧
          forge.publicOf privKey = forge.publicKey cert := by
  unfold certKeyMatches
  cases forge.privateKeyFromPem keyPem with
  | none => simp
  | some privKey => cases forge.certificateFromPem certPem <;> simp

theorem keyPem_ne_of_matches (hforge : forge.Lawful) {certPem keyPem : String}
    (h : certKeyMatches forge certPem keyPem = true) : keyPem ≠ "" := by
  rintro rfl
  obtain ⟨privKey, -, hread, -⟩ := certKeyMatches_iff.mp h
  rw [hforge.readsNothing] at hread
  cases hread

theorem mem_extractSpiffeUris {certPem uri : String} {cert : forge.Certificate}
    (hcert : forge.certificateFromPem certPem = some cert) :
    uri ∈ extractSpiffeUris forge certPem ↔
      startsWith uri "spiffe://thinklocal/" = true ∧
        ∃ names, forge.altNames cert = some names ∧ ⟨6, uri⟩ ∈ names := by
  unfold extractSpiffeUris
  rw [hcert]
  dsimp only
  cases hnames : forge.altNames cert with
  | none => simp
  | some names =>
      simp only [Option.getD_some, List.mem_map, List.mem_filter, isSpiffe, Bool.and_eq_true,
        decide_eq_true_eq, Option.some.injEq, exists_eq_left']
      constructor
      · rintro ⟨⟨type, value⟩, ⟨hmem, htype, hstart⟩, hvalue⟩
        dsimp only at htype hstart hvalue
        subst htype hvalue
        exact ⟨hstart, hmem⟩
      · rintro ⟨hstart, hmem⟩
        exact ⟨⟨6, uri⟩, ⟨hmem, rfl, hstart⟩, rfl⟩

/-- A key that can be read is kept, and its public part is the certificate's. -/
theorem keyOrDrawn_existing {keyPem keyPemOut : String} {draw : Draw forge.PrivateKey}
    {publicKey : forge.PublicKey} (hne : keyPem ≠ "")
    (h : keyOrDrawn forge (some keyPem) draw = some (publicKey, keyPemOut)) :
    keyPemOut = keyPem ∧
      ∃ privKey, forge.privateKeyFromPem keyPem = some privKey ∧
        publicKey = forge.publicOf privKey := by
  unfold keyOrDrawn at h
  split at h
  · next heq => cases heq
  · next heq => exact absurd (Option.some.inj heq) hne
  · next pem _ heq =>
      obtain rfl := Option.some.inj heq
      obtain ⟨privKey, hread, hpair⟩ := Option.map_eq_some_iff.mp h
      obtain ⟨rfl, rfl⟩ := Prod.mk.inj hpair
      exact ⟨rfl, privKey, hread, rfl⟩

/-- What `createNodeCert` has gone through when it does not throw. -/
theorem createNodeCert_eq_some {now : ℤ} {draw : Draw forge.PrivateKey} {ca : CaBundle}
    {hostname spiffeUri : String} {ipAddresses : List String} {existingKeyPem : Option String}
    {bundle : NodeCertBundle}
    (h : createNodeCert forge now draw ca hostname spiffeUri ipAddresses existingKeyPem =
      some bundle) :
    ∃ caCert caKey publicKey, forge.certificateFromPem ca.caCertPem = some caCert ∧
      forge.privateKeyFromPem ca.caKeyPem = some caKey ∧
      keyOrDrawn forge existingKeyPem draw = some (publicKey, bundle.keyPem) ∧
      forge.signedPem (some caCert) caKey
        (nodeTemplate forge now draw publicKey hostname spiffeUri ipAddresses) =
          some bundle.certPem ∧ bundle.caCertPem = ca.caCertPem := by
  unfold createNodeCert at h
  simp only [Option.bind_eq_bind, Option.bind_eq_some_iff] at h
  obtain ⟨caCert, hcaCert, caKey, hcaKey, ⟨publicKey, keyPemOut⟩, hkey, certPem, hsigned, h⟩ := h
  obtain rfl := Option.some.inj h
  exact ⟨caCert, caKey, publicKey, hcaCert, hcaKey, hkey, hsigned, rfl⟩

theorem spiffeUri_mem_createNodeCert (hforge : forge.Lawful) {now : ℤ}
    {draw : Draw forge.PrivateKey} {ca : CaBundle} {hostname spiffeUri : String}
    {ipAddresses : List String} {existingKeyPem : Option String} {bundle : NodeCertBundle}
    (huri : startsWith spiffeUri "spiffe://thinklocal/" = true)
    (h : createNodeCert forge now draw ca hostname spiffeUri ipAddresses existingKeyPem =
      some bundle) :
    spiffeUri ∈ extractSpiffeUris forge bundle.certPem := by
  obtain ⟨caCert, caKey, publicKey, -, -, -, hsigned, -⟩ := createNodeCert_eq_some h
  obtain ⟨cert, hcert, hcarries⟩ := hforge.reads hsigned
  exact (mem_extractSpiffeUris hcert).mpr ⟨huri, _, hcarries.altNames, by simp⟩

/-- A certificate for an existing key matches that key. -/
theorem certKeyMatches_createNodeCert (hforge : forge.Lawful) {now : ℤ}
    {draw : Draw forge.PrivateKey} {ca : CaBundle} {hostname spiffeUri keyPem : String}
    {ipAddresses : List String} {bundle : NodeCertBundle} (hne : keyPem ≠ "")
    (h : createNodeCert forge now draw ca hostname spiffeUri ipAddresses (some keyPem) =
      some bundle) :
    bundle.keyPem = keyPem ∧ certKeyMatches forge bundle.certPem keyPem = true := by
  obtain ⟨caCert, caKey, publicKey, -, -, hkey, hsigned, -⟩ := createNodeCert_eq_some h
  obtain ⟨hkeyPem, privKey, hread, rfl⟩ := keyOrDrawn_existing hne hkey
  obtain ⟨cert, hcert, hcarries⟩ := hforge.reads hsigned
  exact ⟨hkeyPem, certKeyMatches_iff.mpr ⟨privKey, cert, hread, hcert, hcarries.publicKey.symm⟩⟩

end ThinkLocal.Tls
