import ThinkLocal.Onboarding.TokenApi
import ThinkLocal.Spiffe.SpiffeUri

/-!
# What a join does to the peers that are there

A joining node chooses its agent id.  The handler does not ask whether the id is taken, whether
it is its own or whether it is an identity of this mesh, so the pairing with another node can be
replaced.
-/

namespace ThinkLocal.Onboarding

open Foundation Js Mesh Pairing Spiffe

variable {deps : TokenApiDeps} {s : Stores} {env : JoinEnv} {request : JoinRequest}
  {body : JoinBody} {caBundle : CaBundle} {response : JoinResponse} {uri : String}

/-- The peers that were there keep their keys, their certificates and their fingerprints, the new
one has the identity of another daemon, and no key but the one of the request is paired anew. -/
structure TrustKept (deps : TokenApiDeps) (body : JoinBody) (before after : PairingStore) : Prop where
  existing : ∀ agentId peer, before.getPeer agentId = some peer →
    ∃ peer', after.getPeer agentId = some peer' ∧ peer'.publicKeyPem = peer.publicKeyPem ∧
      peer'.caCertPem = peer.caCertPem ∧ peer'.fingerprint = peer.fingerprint
  daemon : ∃ uri parsed, body.agent_id = .string uri ∧ parseSpiffeUri uri = .ok parsed ∧
    parsed.tail = none
  other : body.agent_id ≠ .string deps.ownAgentId
  keys : ∀ key, after.isPairedByPublicKey deps.sha256Hex key = true →
    before.isPairedByPublicKey deps.sha256Hex key = true ∨ body.publicKeyPem = .string key

/-- The agent id is a text in the trust domain and not the one of the admin, and a peer that has it
already was stored with the same key by an earlier join. -/
structure Harmless (deps : TokenApiDeps) (caBundle : CaBundle) (body : JoinBody)
    (pairing : PairingStore) : Prop where
  domain : ∃ uri, body.agent_id = .string uri ∧ (SPIFFE_PREFIX ++ "/").toList <+: uri.toList
  other : body.agent_id ≠ .string deps.ownAgentId
  same : ∀ peer, pairing.getPeer body.agent_id = some peer →
    peer.publicKeyPem = body.publicKeyPem ∧ peer.caCertPem = .string caBundle.caCertPem ∧
      peer.fingerprint = .string ""

/-! ## The request -/

theorem issue_eq_certificate {ip : String}
    (h : (issue deps s env ip caBundle body).2 = .certificate response) :
    (issue deps s env ip caBundle body).1.pairing =
      s.pairing.addPeer (newPeer caBundle body env.pairedAt) := by
  revert h
  unfold issue
  split
  case h_1 =>
    intro h
    cases h
  case h_2 =>
    split
    case h_1 =>
      intro h
      cases h
    case h_2 =>
      dsimp only
      split
      case h_1 | h_2 =>
        intro h
        cases h
      case h_3 => exact fun _ => rfl

/-- A request that gets a certificate adds the peer of its body and nothing else. -/
theorem join_eq_certificate (h : (join deps s env request).2 = .certificate response) :
    ∃ body caBundle, request.body = some body ∧ deps.caBundle = some caBundle ∧
      (∃ text, coerced env body.agent_id = some text ∧ isSpiffeId text = true) ∧
        (join deps s env request).1.pairing =
          s.pairing.addPeer (newPeer caBundle body env.pairedAt) := by
  revert h
  unfold join
  split
  case h_1 =>
    intro h
    cases h
  case h_2 =>
    split
    case isTrue =>
      intro h
      cases h
    case isFalse =>
      split
      case h_1 =>
        split <;> exact fun h => by cases h
      case h_2 =>
        -- all answers so far are refusals
        unfold consume
        split
        case h_1 answer hbody =>
          intro h
          obtain rfl : answer = .certificate response := h
          cases checkBody_eq_error hbody
        case h_2 body hbody =>
          split
          case h_1 =>
            intro h
            cases h
          case h_2 caBundle hca =>
            split
            case h_1 =>
              intro h
              cases h
            case h_2 =>
              -- only the last branch issues a certificate
              intro h
              obtain ⟨hgiven, htext⟩ := checkBody_eq_ok hbody
              exact ⟨body, caBundle, hgiven, hca, htext, issue_eq_certificate h⟩

/-- An accepted id is one of a daemon exactly if it is in the trust domain. -/
theorem daemon_of_isSpiffeId (h : isSpiffeId uri = true) :
    (∃ parsed, parseSpiffeUri uri = .ok parsed ∧ parsed.tail = none) ↔
      (SPIFFE_PREFIX ++ "/").toList <+: uri.toList := by
  unfold isSpiffeId at h
  split at h
  case h_2 => cases h
  case h_1 domain node agent hsegments =>
    simp only [Bool.and_eq_true] at h
    obtain ⟨⟨⟨hdomain, -⟩, hnode⟩, hagent⟩ := h
    -- the segments are joined again
    have huri : uri.toList = "spiffe://".toList ++ (domain.toList ++ '/' ::
        (joinSegments '/' ["host", node, "agent", agent]).toList) := by
      have hjoined : joinSegments '/' (segments '/' uri) = uri := joinSegments_segments
      rw [hsegments] at hjoined
      rw [← hjoined]
      simp [joinSegments, List.intercalate]
    constructor
    · rintro ⟨parsed, hparse, -⟩
      obtain ⟨-, rfl, -⟩ := parseSpiffeUri_eq_ok.mp hparse
      rw [ParsedSpiffeUri.toList_uri]
      exact List.prefix_append _ _
    · rintro ⟨rest, hrest⟩
      have hsplit : "thinklocal".toList ++ '/' :: rest =
          domain.toList ++ '/' :: (joinSegments '/' ["host", node, "agent", agent]).toList := by
        have hall : "spiffe://".toList ++ ("thinklocal".toList ++ '/' :: rest) = uri.toList := by
          rw [← hrest]
          simp [SPIFFE_PREFIX]
        exact List.append_cancel_left (hall.trans huri)
      -- both texts are cut at their first slash
      obtain ⟨hthink, -⟩ := append_cons_injective (by decide)
        (notMem_of_isComponent hdomain (by decide)) hsplit
      refine ⟨.host node agent none uri, parseSpiffeUri_eq_ok.mpr ⟨rfl, ?_, hnode, hagent, ?_⟩, rfl⟩
      · rw [← String.toList_inj, ParsedSpiffeUri.toList_uri, huri, ← hthink]
        simp [SPIFFE_PREFIX, ParsedSpiffeUri.tokens]
      · exact fun id hid => by cases hid

/-! ## The peers afterwards -/

/-- No key has an empty hash, so the new peer is found by no key. -/
theorem isPairedByPublicKey_addPeer (hhash : ∀ text, deps.sha256Hex text ≠ "")
    {pairing : PairingStore} {pairedAt : Int} {key : String}
    (h : (pairing.addPeer (newPeer caBundle body pairedAt)).isPairedByPublicKey deps.sha256Hex key =
      true) : pairing.isPairedByPublicKey deps.sha256Hex key = true := by
  obtain ⟨hkey, peer, hpeer, hfingerprint⟩ := of_decide_eq_true h
  obtain ⟨agentId, hget⟩ := InsertionMap.mem_values_iff.mp hpeer
  have hadded : (pairing.addPeer (newPeer caBundle body pairedAt)).getPeer agentId = some peer := hget
  rw [PairingStore.getPeer_addPeer] at hadded
  split at hadded
  case isTrue =>
    -- the fingerprint of the new peer is empty
    obtain rfl := Option.some.inj hadded
    exact absurd (Plain.string.inj hfingerprint).symm (hhash key)
  case isFalse =>
    exact decide_eq_true ⟨hkey, peer, InsertionMap.mem_values_iff.mpr ⟨agentId, hadded⟩,
      hfingerprint⟩

/-- A request that gets a certificate leaves the trust in the other peers as it is exactly if its
agent id is harmless. -/
theorem join_keeps_trust_iff (hhash : ∀ text, deps.sha256Hex text ≠ "")
    (hjoin : (join deps s env request).2 = .certificate response) (hbody : request.body = some body)
    (hca : deps.caBundle = some caBundle) :
    TrustKept deps body s.pairing (join deps s env request).1.pairing ↔
      Harmless deps caBundle body s.pairing := by
  obtain ⟨given, ca, hgiven, hcaBundle, ⟨text, htext, hspiffe⟩, hpairing⟩ :=
    join_eq_certificate hjoin
  obtain rfl := Option.some.inj (hgiven.symm.trans hbody)
  obtain rfl := Option.some.inj (hcaBundle.symm.trans hca)
  rw [hpairing]
  have hsame : ∀ {uri}, given.agent_id = .string uri → text = uri := by
    intro uri huri
    rw [huri] at htext
    exact (Option.some.inj htext).symm
  constructor
  · intro h
    refine ⟨?_, h.other, ?_⟩
    · obtain ⟨uri, parsed, huri, hparse, htail⟩ := h.daemon
      obtain rfl := hsame huri
      exact ⟨text, huri, (daemon_of_isSpiffeId hspiffe).mp ⟨parsed, hparse, htail⟩⟩
    · intro peer hpeer
      obtain ⟨peer', hafter, hkey, hcert, hfingerprint⟩ := h.existing _ peer hpeer
      -- the peer under the id is now the one of the body
      rw [PairingStore.getPeer_addPeer] at hafter
      obtain rfl := Option.some.inj ((if_pos rfl).symm.trans hafter)
      exact ⟨hkey.symm, hcert.symm, hfingerprint.symm⟩
  · intro h
    refine ⟨?_, ?_, h.other, fun key hkey => .inl (isPairedByPublicKey_addPeer hhash hkey)⟩
    · intro agentId peer hpeer
      rw [PairingStore.getPeer_addPeer]
      by_cases hid : agentId = given.agent_id
      · obtain ⟨hkey, hcert, hfingerprint⟩ := h.same peer (hid ▸ hpeer)
        exact ⟨_, if_pos hid, hkey.symm, hcert.symm, hfingerprint.symm⟩
      · exact ⟨peer, (if_neg hid).trans hpeer, rfl, rfl, rfl⟩
    · obtain ⟨uri, huri, hstart⟩ := h.domain
      obtain rfl := hsame huri
      obtain ⟨parsed, hparse, htail⟩ := (daemon_of_isSpiffeId hspiffe).mpr hstart
      exact ⟨text, parsed, huri, hparse, htail⟩

/-! An admin with one token and one peer. -/

/-- The digests of the one token and of the empty text. -/
def inviteSha256Hex (text : String) : String :=
  if text = TOKEN_PREFIX ++ "AAAAAAAAAAAAAAAAAAAAAAAAAAAAAAAAAAAAAAAAAAA" then
    "a3a83b61947fc933b5c5fb1c7c1af4ddb4655dc1da0b075e63cd8c841652da1c"
  else "e3b0c44298fc1c149afbf4c8996fb92427ae41e4649b934ca495991b7852b855"

def adminDeps : TokenApiDeps where
  sha256Hex := inviteSha256Hex
  caBundle := some ⟨"ca", "ca key"⟩
  ownAgentId := "spiffe://thinklocal/host/a/agent/claude"
  current := none

/-- The store with the token of an hour. -/
def inviteTokens : TokenStore :=
  match TokenStore.empty.createToken inviteSha256Hex "node" adminDeps.ownAgentId 3600000 0
    ("AAAAAAAAAAAAAAAAAAAAAAAAAAAAAAAAAAAAAAAAAAA", "1") with
  | .ok (tokens, _) => tokens
  | .error _ => .empty

def pairedUri : String := "spiffe://thinklocal/host/b/agent/claude"

def adminStores : Stores where
  tokens := inviteTokens
  pairing := PairingStore.empty.addPeer
    ⟨.string pairedUri, .string "key", .string "other ca", .string "fingerprint", 0, .string "b"⟩

def inviteEnv : JoinEnv where
  objectText _ := none
  objectCell _ := none
  allowed := true
  validatedAt := 1000
  usedAt := 1000
  pairedAt := 1000
  createNodeCert _ _ _ _ := .ok ⟨"certificate", "node key"⟩
  saved := .ok ()
  audited := .ok ()

/-- A node that joins without a key of its own. -/
def inviteBody (agent_id : String) : JoinBody := ⟨.string "c", .string agent_id, .undefined⟩

def inviteRequest (agent_id : String) : JoinRequest where
  authorization := some ("Bearer " ++ TOKEN_PREFIX ++ "AAAAAAAAAAAAAAAAAAAAAAAAAAAAAAAAAAAAAAAAAAA")
  ip := "10.0.0.2"
  body := some (inviteBody agent_id)

/-- A node with a new id changes nothing for the peer. -/
theorem join_keeps_trust_new : ∃ response,
    (join adminDeps adminStores inviteEnv
        (inviteRequest "spiffe://thinklocal/host/c/agent/claude")).2 = .certificate response ∧
      TrustKept adminDeps (inviteBody "spiffe://thinklocal/host/c/agent/claude") adminStores.pairing
        (join adminDeps adminStores inviteEnv
          (inviteRequest "spiffe://thinklocal/host/c/agent/claude")).1.pairing := by
  have hhash : ∀ text, adminDeps.sha256Hex text ≠ "" := by
    intro text
    unfold adminDeps inviteSha256Hex
    dsimp only
    split <;> decide
  refine ⟨_, rfl, (join_keeps_trust_iff hhash rfl rfl rfl).mpr ⟨⟨_, rfl, by decide⟩, by decide, ?_⟩⟩
  intro peer hpeer
  cases hpeer

/-- A node that takes the id of the peer gets its certificate, and the peer has lost its key. -/
theorem join_takes_over : ∃ response,
    (join adminDeps adminStores inviteEnv (inviteRequest pairedUri)).2 = .certificate response ∧
      ¬ TrustKept adminDeps (inviteBody pairedUri) adminStores.pairing
        (join adminDeps adminStores inviteEnv (inviteRequest pairedUri)).1.pairing := by
  refine ⟨_, rfl, fun h => ?_⟩
  obtain ⟨peer', hafter, hkey, -⟩ := h.existing (.string pairedUri) _ rfl
  obtain rfl := Option.some.inj hafter
  revert hkey
  decide

end ThinkLocal.Onboarding
