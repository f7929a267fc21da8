import ThinkLocal.Ipc.UnixSocket
import ThinkLocal.Js.Base64

/-!
# Proof of possession

`cert-pop.ts`: the message that a node signs for its certificate, and the check of the signature.
Each field stands behind its length, so the message tells the fields.
-/

namespace ThinkLocal.Issuance

open Js Foundation
open Ipc (socketFraming)

def CERT_POP_DOMAIN : String := "thinklocal-mcp.cert-pop.v1"

structure CertPopFields where
  caFingerprint : String
  nonce : String
  peerId : String
  spiffeUri : String
  csrPublicKeyHash : String
deriving DecidableEq

namespace CertPopFields

/-- The texts of the message in their order. -/
def texts (fields : CertPopFields) : List String :=
  [CERT_POP_DOMAIN, fields.caFingerprint, fields.nonce, fields.peerId, fields.spiffeUri,
    fields.csrPublicKeyHash]

/-- The lengths of the texts fit into their 32 bits. -/
def Fit (fields : CertPopFields) : Prop :=
  ∀ text ∈ fields.texts, (encodeUtf8 text.toList).length < 2 ^ 32

theorem texts_injective {fields fields' : CertPopFields} (h : fields.texts = fields'.texts) :
    fields = fields' := by
  obtain ⟨caFingerprint, nonce, peerId, spiffeUri, csrPublicKeyHash⟩ := fields
  simp only [texts, List.cons.injEq, and_true, true_and] at h
  obtain ⟨rfl, rfl, rfl, rfl, rfl⟩ := h
  rfl

end CertPopFields

/-- `buildCertPopMessage`; the lengths are written as in the frames of the socket. -/
def buildCertPopMessage (fields : CertPopFields) : Bytes :=
  socketFraming.encodeAll (fields.texts.map fun text => encodeUtf8 text.toList)

/-- Different fields have different messages. -/
theorem buildCertPopMessage_injective {fields fields' : CertPopFields} (h : fields.Fit)
    (h' : fields'.Fit) (heq : buildCertPopMessage fields = buildCertPopMessage fields') :
    fields = fields' := by
  have hshort : ∀ {fields : CertPopFields}, fields.Fit →
      ∀ payload ∈ fields.texts.map fun text => encodeUtf8 text.toList,
        payload.length < socketFraming.bound := by
    intro fields hfit payload hpayload
    obtain ⟨text, htext, rfl⟩ := List.mem_map.mp hpayload
    exact hfit text htext
  have hpayloads := Framing.encodeAll_injective (hshort h) (hshort h') heq
  refine CertPopFields.texts_injective (List.map_injective_iff.mpr ?_ hpayloads)
  intro text text' htext
  exact String.toList_injective (encodeUtf8_injective htext)

/-! ## The check -/

/-- What is taken from `@libp2p` and from the runtime. -/
structure PeerKeys where
  PublicKey : Type
  publicKeyFromRaw : Bytes → Except String PublicKey
  type : PublicKey → String
  peerIdFromPublicKey : PublicKey → String
  /-- The verification of a signature of a message. -/
  verify : PublicKey → (message signature : Bytes) → Except String Bool
  toUpperCase : String → String

variable (keys : PeerKeys)

def normalizeFingerprint (fp : String) : String :=
  keys.toUpperCase (String.ofList (fp.toList.filter (· ≠ ':')))

/-- The `catch` of `verifyCertPop`. -/
def popFailed {α : Type} : Except String α → Except String α
  | .ok a => .ok a
  | .error message => .error ("PoP-Verifikation fehlgeschlagen: " ++ message)

/-- `verifyCertPop`; an error is the reason of a refusal. -/
def verifyCertPop (ed25519PublicKeyRaw : Bytes) (fields : CertPopFields) (signatureB64 : String)
    (expectedCaFingerprint : String) : Except String Unit := do
  let pubKey ← popFailed (keys.publicKeyFromRaw ed25519PublicKeyRaw)
  let derivedPeerId := keys.peerIdFromPublicKey pubKey
  if keys.type pubKey ≠ "Ed25519" then
    .error ("Public-Key-Typ " ++ keys.type pubKey ++ " != Ed25519")
  else if derivedPeerId ≠ fields.peerId then
    .error ("PeerID " ++ fields.peerId ++ " leitet sich nicht aus dem Public-Key ab (" ++
      derivedPeerId ++ ")")
  else if fields.spiffeUri ≠ "spiffe://thinklocal/node/" ++ derivedPeerId then
    .error ("SPIFFE-URI " ++ fields.spiffeUri ++ " != erwartet spiffe://thinklocal/node/" ++
      derivedPeerId)
  else if normalizeFingerprint keys fields.caFingerprint ≠
      normalizeFingerprint keys expectedCaFingerprint then
    .error "CA-Fingerprint im PoP-Scope passt nicht zur ausstellenden Admin-CA"
  else
    let valid ← popFailed
      (keys.verify pubKey (buildCertPopMessage fields) (fromBase64 signatureB64))
    if valid then .ok () else .error "Ed25519-PoP-Signatur ungültig"

end ThinkLocal.Issuance
