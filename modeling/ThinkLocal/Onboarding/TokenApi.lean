import ThinkLocal.Mesh.PeerIdentity
import ThinkLocal.Onboarding.TokenStore
import ThinkLocal.Foundation.Segments
import ThinkLocal.Pairing.PairingStore

/-!
# Joining with a token

`POST /onboarding/join` of `token-api.ts`.  The handler waits for nothing, so a request is
handled in one go: the token is validated, the body is checked, the token is consumed and only
then a certificate is made and the new peer is stored.

The fields of a body have any JSON type.  The regular expressions see what a field turns into as
a text, and for an object this is given from outside, as is the cell of the table that the driver
makes of it.
-/

namespace ThinkLocal.Onboarding

open Foundation Js Mesh Pairing

structure JoinBody where
  hostname : Plain
  agent_id : Plain
  public_key_pem : Plain

structure JoinRequest where
  authorization : Option String
  ip : String
  body : Option JoinBody

structure CaBundle where
  caCertPem : String
  caKeyPem : String

structure NodeCertBundle where
  certPem : String
  keyPem : String

/-- What a request meets: what the objects of its body turn into, the answer of the rate limiter,
the readings of the clock, and the calls that can throw. -/
structure JoinEnv where
  objectText : Nat → Option String
  objectCell : Nat → Option String
  allowed : Bool
  validatedAt : Int
  usedAt : Int
  pairedAt : Int
  createNodeCert : CaBundle → Plain → Plain → List String → Except String NodeCertBundle
  saved : Except String Unit
  audited : Except String Unit

structure TokenApiDeps where
  sha256Hex : String → String
  caBundle : Option CaBundle
  ownAgentId : String
  /-- `trustStoreNotifier.current()`. -/
  current : Option (PairingStore → List String)

structure Stores where
  tokens : TokenStore
  pairing : PairingStore

structure JoinResponse where
  signed_cert_pem : String
  key_pem : String
  ca_cert_pem : String
  trusted_ca_bundle : List String
  /-- Agent id, CA certificate and hostname. -/
  peers : List (Plain × Plain × Plain)
  admin_agent_id : String
  mesh_name : String
  message : String

inductive JoinAnswer
  /-- Refused before the token is consumed. -/
  | error (code : Nat) (text : String)
  /-- An exception outside of the `try`, answered with 500. -/
  | thrown (message : String)
  /-- 500 `Certificate generation failed`; the token has been consumed. -/
  | failed (message : String)
  | certificate (response : JoinResponse)

/-! ## The body -/

/-- `String(value)`; `none` where it throws. -/
def coerced (env : JoinEnv) : Plain → Option String
  | .undefined => some "undefined"
  | .null => some "null"
  | .boolean value => some (if value then "true" else "false")
  | .number text | .string text => some text
  | .object identity => env.objectText identity

/-- The cell of an argument of a statement. -/
def cell (env : JoinEnv) : Plain → Option String
  | .string text => some text
  | .object identity => env.objectCell identity
  | _ => none

/-- `HOSTNAME_REGEX`. -/
def isHostname (text : String) : Bool :=
  text.toList.length ≤ 63 && isComponent text && text.toList.head?.any Char.isAlphanum &&
    text.toList.getLast?.any Char.isAlphanum

/-- `SPIFFE_REGEX`. -/
def isSpiffeId (text : String) : Bool :=
  match segments '/' text with
  | ["spiffe:", "", domain, "host", node, "agent", agent] =>
      isComponent domain && '_' ∉ domain.toList && isComponent node && isComponent agent
  | _ => false

/-- The body with its hostname and its agent id, or the refusal. -/
def checkBody (env : JoinEnv) : Option JoinBody → Except JoinAnswer JoinBody
  | none => .error (.error 400 "hostname and agent_id are required")
  | some body =>
      if ! body.hostname.truthy || ! body.agent_id.truthy then
        .error (.error 400 "hostname and agent_id are required")
      else
        match coerced env body.hostname with
        | none => .error (.thrown "Cannot convert object to primitive value")
        | some hostname =>
            if ! isHostname hostname then .error (.error 400 "Invalid hostname format")
            else
              match coerced env body.agent_id with
              | none => .error (.thrown "Cannot convert object to primitive value")
              | some agentId =>
                  if ! isSpiffeId agentId then
                    .error (.error 400 "Invalid agent_id (must be a valid SPIFFE URI)")
                  else .ok body

/-! ## The handler -/

def ipAddresses (ip : String) : List String := [ip].filter fun ip => ip ≠ "127.0.0.1" ∧ ip ≠ "::1"

/-- `body.public_key_pem ?? ''`. -/
def JoinBody.publicKeyPem (body : JoinBody) : Plain :=
  match body.public_key_pem with
  | .undefined | .null => .string ""
  | value => value

/-- The peer that a body is stored as. -/
def newPeer (caBundle : CaBundle) (body : JoinBody) (pairedAt : Int) : PairedPeer where
  agentId := body.agent_id
  publicKeyPem := body.publicKeyPem
  caCertPem := .string caBundle.caCertPem
  fingerprint := .string ""
  pairedAt := pairedAt
  hostname := body.hostname

def joinResponse (deps : TokenApiDeps) (env : JoinEnv) (caBundle : CaBundle) (body : JoinBody)
    (nodeCert : NodeCertBundle) (pairing : PairingStore) : JoinResponse :=
  let allCAs := (deps.current.map fun current => current pairing).getD [caBundle.caCertPem]
  let existingPeers := (pairing.getAllPeers.filter fun p => p.agentId ≠ body.agent_id).map fun p =>
    (p.agentId, p.caCertPem, p.hostname)
  { signed_cert_pem := nodeCert.certPem
    key_pem := nodeCert.keyPem
    ca_cert_pem := caBundle.caCertPem
    trusted_ca_bundle := allCAs
    peers := existingPeers
    admin_agent_id := deps.ownAgentId
    mesh_name := "thinklocal"
    message := "Willkommen im Mesh! Zertifikat fuer " ++ (coerced env body.hostname).getD "" ++
      " ausgestellt (90 Tage gueltig). " ++ toString allCAs.length ++ " CA(s), " ++
      toString existingPeers.length ++ " Peer(s) uebertragen." }

/-- The `try` block, after the token has been consumed. -/
def issue (deps : TokenApiDeps) (s : Stores) (env : JoinEnv) (ip : String) (caBundle : CaBundle)
    (body : JoinBody) : Stores × JoinAnswer :=
  match env.createNodeCert caBundle body.hostname body.agent_id (ipAddresses ip) with
  | .error message => (s, .failed message)
  | .ok nodeCert =>
      match toISOString env.pairedAt with
      | none => (s, .failed "Invalid time value")
      | some _ =>
          let s := { s with pairing := s.pairing.addPeer (newPeer caBundle body env.pairedAt) }
          match env.saved, env.audited with
          | .error message, _ | .ok _, .error message => (s, .failed message)
          | .ok _, .ok _ =>
              (s, .certificate (joinResponse deps env caBundle body nodeCert s.pairing))

/-- The body is checked and the token consumed. -/
def consume (deps : TokenApiDeps) (s : Stores) (env : JoinEnv) (request : JoinRequest)
    (tokenId : String) : Stores × JoinAnswer :=
  match checkBody env request.body with
  | .error answer => (s, answer)
  | .ok body =>
      match deps.caBundle with
      | none => (s, .error 500 "This node cannot sign certificates (not an admin node)")
      | some caBundle =>
          match s.tokens.markUsed tokenId (cell env body.agent_id) env.usedAt with
          | .error message => (s, .thrown message)
          | .ok tokens => issue deps { s with tokens } env request.ip caBundle body

/-- The token of the header. -/
def bearerToken (authorization : Option String) : Option String :=
  authorization.bind fun header =>
    (afterPrefix "Bearer ".toList header.toList).map fun rest => trim (String.ofList rest)

def join (deps : TokenApiDeps) (s : Stores) (env : JoinEnv) (request : JoinRequest) :
    Stores × JoinAnswer :=
  match bearerToken request.authorization with
  | none => (s, .error 401 "Missing Authorization: Bearer <token>")
  | some rawToken =>
      if ! env.allowed then (s, .error 429 "Too many join attempts. Try again later.")
      else
        match s.tokens.validateToken deps.sha256Hex rawToken env.validatedAt with
        | .invalid reason =>
            match env.audited with
            | .error message => (s, .thrown message)
            | .ok _ => (s, .error 403 ("Token rejected: " ++ reason.text))
        | .valid tokenId _ => consume deps s env request tokenId

/-! ## Refusals -/

/-- Refused before the token is consumed. -/
def JoinAnswer.refused : JoinAnswer → Bool
  | error _ _ | thrown _ => true
  | failed _ | certificate _ => false

variable {env : JoinEnv} {body : JoinBody}

theorem checkBody_eq_error {given : Option JoinBody} {answer : JoinAnswer}
    (h : checkBody env given = .error answer) : answer.refused = true := by
  unfold checkBody at h
  split at h
  case h_1 => rw [← Except.error.inj h]; rfl
  case h_2 =>
    split at h
    case isTrue => rw [← Except.error.inj h]; rfl
    case isFalse =>
      split at h
      case h_1 => rw [← Except.error.inj h]; rfl
      case h_2 =>
        split at h
        case isTrue => rw [← Except.error.inj h]; rfl
        case isFalse =>
          split at h
          case h_1 => rw [← Except.error.inj h]; rfl
          case h_2 =>
            split at h
            case isTrue => rw [← Except.error.inj h]; rfl
            case isFalse => cases h

theorem checkBody_eq_ok {given : Option JoinBody} (h : checkBody env given = .ok body) :
    given = some body ∧ ∃ text, coerced env body.agent_id = some text ∧ isSpiffeId text = true := by
  unfold checkBody at h
  split at h
  case h_1 => cases h
  case h_2 =>
    split at h
    case isTrue => cases h
    case isFalse =>
      split at h
      case h_1 => cases h
      case h_2 =>
        split at h
        case isTrue => cases h
        case isFalse =>
          split at h
          case h_1 => cases h
          case h_2 agentId hagentId =>
            split at h
            case isTrue => cases h
            case isFalse hvalid =>
              obtain rfl := Except.ok.inj h
              exact ⟨rfl, agentId, hagentId, by simpa using hvalid⟩

end ThinkLocal.Onboarding
