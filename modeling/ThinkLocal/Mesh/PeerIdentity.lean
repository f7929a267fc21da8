import Mathlib.Tactic

/-!
# Peer identities

The pure functions of `peer-identity.ts` that an inbound message goes through: the
two forms of a sender URI, the PeerID that a certificate attests, and the
authorisation of a sender over its certificate.  Texts are matched as lists of
characters.
-/

namespace ThinkLocal.Mesh

def trustDomain : String := "thinklocal"

/-- `peerIdToSpiffeUri`. -/
def peerIdToSpiffeUri (peerId : String) : String :=
  "spiffe://" ++ trustDomain ++ "/node/" ++ peerId

/-- What every canonical URI starts with. -/
def canonicalPrefix : String := "spiffe://thinklocal/node/"

/-- The text after a given start, if it has that start. -/
def afterPrefix (start text : List Char) : Option (List Char) :=
  if start <+: text then some (text.drop start.length) else none

/-- A nonempty text of letters and digits. -/
def isPeerIdText (text : List Char) : Bool :=
  text ≠ [] ∧ text.all fun c => c.isAlphanum

/-- `spiffeUriToPeerId`: the PeerID of a canonical URI. -/
def spiffeUriToPeerId (uri : String) : Option String :=
  (afterPrefix canonicalPrefix.toList uri.toList).bind fun peerId =>
    if isPeerIdText peerId then some (String.ofList peerId) else none

def isCanonicalNodeUri (uri : String) : Bool := (spiffeUriToPeerId uri).isSome

/-- A nonempty text of letters, digits, dots, underscores and hyphens. -/
def isComponent (text : String) : Bool :=
  text.toList ≠ [] ∧ text.toList.all fun c => c.isAlphanum || c = '.' || c = '_' || c = '-'

theorem notMem_of_isComponent {text : String} {c : Char} (h : isComponent text = true)
    (hc : (c.isAlphanum || c = '.' || c = '_' || c = '-') = false) : c ∉ text.toList := by
  intro hmem
  have hchar := List.all_eq_true.mp (of_decide_eq_true h).2 c hmem
  rw [hc] at hchar
  cases hchar

/-- `isLegacyHostUri`. -/
def isLegacyHostUri (uri : String) : Bool :=
  match (uri.toList.splitOn '/').map String.ofList with
  | ["spiffe:", "", "thinklocal", "host", stableNodeId, "agent", agentType] =>
      isComponent stableNodeId && isComponent agentType
  | _ => false

/-! ## Certificates -/

def normalizeFingerprint (fp : String) : String :=
  String.ofList ((fp.toList.filter fun c => c ≠ ':').map Char.toUpper)

/-- `isAttestingIssuer`. -/
def isAttestingIssuer (issuerFingerprint : Option String) (attestingFingerprints : List String) :
    Bool :=
  match issuerFingerprint with
  | none => false
  | some fingerprint =>
      fingerprint ≠ "" ∧
        attestingFingerprints.any fun fp =>
          normalizeFingerprint fp = normalizeFingerprint fingerprint

/-- `attestedPeerIdFromCert`: the PeerID of the first canonical SAN, from a pinned issuer. -/
def attestedPeerIdFromCert (certSans : List String) (issuerFingerprint : Option String)
    (attestingFingerprints : List String) : Option String :=
  match certSans.find? fun uri => (spiffeUriToPeerId uri).isSome with
  | none => none
  | some canonical =>
      if isAttestingIssuer issuerFingerprint attestingFingerprints then
        spiffeUriToPeerId canonical
      else none

structure HttpsSenderAuthz where
  ok : Bool
  verifiedPeerId : Option String := none
  legacy : Bool := false
  reason : Option String := none
  deriving DecidableEq, Repr

/-- `authorizeHttpsSender`. -/
def authorizeHttpsSender (senderUri : String) (certSpiffe : Option String) : HttpsSenderAuthz :=
  match spiffeUriToPeerId senderUri with
  | none =>
      if isLegacyHostUri senderUri then { ok := true, legacy := true }
      else
        { ok := false
          reason := some <| "unsupported sender URI: only canonical node/<PeerID> or legacy " ++
            "host/<id>/agent/<type>" }
  | some wantPeerId =>
      match certSpiffe.bind spiffeUriToPeerId with
      | some certPeerId =>
          if certPeerId = wantPeerId then { ok := true, verifiedPeerId := some wantPeerId }
          else
            { ok := false
              reason := some <| "Cert-SAN PeerID (" ++ certPeerId ++ ") != Sender PeerID (" ++
                wantPeerId ++ ")" }
      | none =>
          { ok := false
            reason := some
              "kanonischer node/<PeerID>-Sender, aber kein passender mTLS-Cert-SAN präsentiert" }

/-- An authorised canonical sender is the one that the certificate names. -/
theorem verifiedPeerId_of_authorized {senderUri peerId : String} {certSpiffe : Option String}
    (h : (authorizeHttpsSender senderUri certSpiffe).verifiedPeerId = some peerId) :
    spiffeUriToPeerId senderUri = some peerId ∧
      certSpiffe.bind spiffeUriToPeerId = some peerId := by
  unfold authorizeHttpsSender at h
  cases hsender : spiffeUriToPeerId senderUri with
  | none =>
      rw [hsender] at h
      dsimp only at h
      split at h <;> cases h
  | some wantPeerId =>
      rw [hsender] at h
      dsimp only at h
      cases hcert : certSpiffe.bind spiffeUriToPeerId with
      | none =>
          rw [hcert] at h
          cases h
      | some certPeerId =>
          rw [hcert] at h
          dsimp only at h
          split at h
          · rename_i heq
            obtain rfl := Option.some.inj h
            exact ⟨rfl, congrArg some heq⟩
          · cases h

theorem canonicalPrefix_isPrefix {uri peerId : String} (h : spiffeUriToPeerId uri = some peerId) :
    canonicalPrefix.toList <+: uri.toList := by
  obtain ⟨text, htext, -⟩ := Option.bind_eq_some_iff.mp h
  unfold afterPrefix at htext
  split at htext
  · assumption
  · cases htext

theorem spiffeUriToPeerId_empty : spiffeUriToPeerId "" = none := by decide

/-- The canonical URIs are those that are made of a PeerID. -/
theorem spiffeUriToPeerId_eq_some_iff {uri peerId : String} :
    spiffeUriToPeerId uri = some peerId ↔
      uri = peerIdToSpiffeUri peerId ∧ isPeerIdText peerId.toList = true := by
  have hstart : ∀ peerId : String,
      (peerIdToSpiffeUri peerId).toList = canonicalPrefix.toList ++ peerId.toList := by
    intro peerId
    rw [peerIdToSpiffeUri, String.toList_append]
    rfl
  constructor
  · intro h
    obtain ⟨rest, hrest, hid⟩ := Option.bind_eq_some_iff.mp h
    unfold afterPrefix at hrest
    split_ifs at hrest with hprefix
    obtain rfl := Option.some.inj hrest
    obtain ⟨rest, hrest⟩ := hprefix
    rw [← hrest, List.drop_left] at hid
    split_ifs at hid with htext
    obtain rfl := Option.some.inj hid
    refine ⟨String.toList_inj.mp ?_, by rwa [String.toList_ofList]⟩
    rw [hstart, String.toList_ofList, hrest]
  · rintro ⟨rfl, htext⟩
    rw [spiffeUriToPeerId, hstart, afterPrefix, if_pos (List.prefix_append _ _), List.drop_left,
      Option.bind_some, if_pos htext, String.ofList_toList]

/-- The first canonical SAN is the first one with its beginning, if that is well-formed. -/
theorem find_canonical {certSans : List String} {uri peerId : String}
    (hsan : (certSans.find? fun uri => canonicalPrefix.toList <+: uri.toList) = some uri)
    (huri : spiffeUriToPeerId uri = some peerId) :
    (certSans.find? fun uri => (spiffeUriToPeerId uri).isSome) = some uri := by
  obtain ⟨-, before, after, hsplit, hbefore⟩ := List.find?_eq_some_iff_append.mp hsan
  refine List.find?_eq_some_iff_append.mpr ⟨by simp [huri], before, after, hsplit, ?_⟩
  intro other hother
  have hnot := hbefore other hother
  cases hparse : spiffeUriToPeerId other with
  | none => rfl
  | some _ => simp [canonicalPrefix_isPrefix hparse] at hnot

/-- The first canonical URI of a certificate decides, if it is well-formed. -/
theorem attestedPeerIdFromCert_of_canonical {certSans : List String} {uri peerId : String}
    {issuerFingerprint : Option String} {attestingFingerprints : List String} {attested : String}
    (hsan : (certSans.find? fun uri => canonicalPrefix.toList <+: uri.toList) = some uri)
    (huri : spiffeUriToPeerId uri = some peerId)
    (h : attestedPeerIdFromCert certSans issuerFingerprint attestingFingerprints =
      some attested) : attested = peerId := by
  rw [attestedPeerIdFromCert, find_canonical hsan huri] at h
  dsimp only at h
  split at h
  · exact Option.some.inj (h.symm.trans huri)
  · cases h

end ThinkLocal.Mesh
