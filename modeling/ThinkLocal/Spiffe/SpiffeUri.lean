import ThinkLocal.Foundation.Except
import ThinkLocal.Foundation.Segments
import ThinkLocal.Mesh.PeerIdentity

/-!
# SPIFFE URIs

`spiffe-uri.ts`: a daemon has the canonical identity `node/<PeerID>` or the legacy one
`host/<id>/agent/<type>`, and a legacy identity may carry an `/instance/<id>` tail.  What
is accepted is the text of its components, so a URI is its own normal form unless it has a
tail.
-/

namespace ThinkLocal.Spiffe

open Foundation Mesh

inductive ParsedSpiffeUri
  | node (nodePeerId raw : String)
  | host (stableNodeId agentType : String) (instanceId : Option String) (raw : String)
deriving DecidableEq

def SPIFFE_PREFIX : String := "spiffe://thinklocal"

/-- `PEERID_REGEX`: base58btc without the characters that look alike. -/
def isPeerId (text : String) : Bool :=
  32 ≤ text.toList.length ∧ text.toList.length ≤ 128 ∧
    text.toList.all fun c => c.isAlphanum && c ≠ '0' && c ≠ 'O' && c ≠ 'I' && c ≠ 'l'

/-- The texts of the two expressions in messages. -/
def PEERID_REGEX : String := "/^[1-9A-HJ-NP-Za-km-z]\x7b32,128\x7d$/"

def SPIFFE_COMPONENT_REGEX : String := "/^[A-Za-z0-9._-]+$/"

/-! ## Parsing -/

/-- The tokens after `node`. -/
def parseNode (uri : String) : List String → Except String ParsedSpiffeUri
  | [nodePeerId] =>
      if nodePeerId = "" then .error ("canonical node URI has empty PeerID: " ++ uri)
      else if isPeerId nodePeerId then .ok (.node nodePeerId uri)
      else
        .error ("canonical node URI has invalid PeerID (must match " ++ PEERID_REGEX ++ "): " ++ uri)
  | tokens =>
      .error ("canonical node URI must be \"node/<PeerID>\" (2 path tokens), got " ++
        toString (tokens.length + 1) ++ ": " ++ uri)

/-- A component with its name. -/
def checkComponent (uri name text : String) : Except String Unit :=
  if isComponent text then .ok ()
  else
    .error ("SPIFFE URI has invalid characters in " ++ name ++ " (must match " ++
      SPIFFE_COMPONENT_REGEX ++ "): " ++ uri)

/-- The first four tokens of the legacy form. -/
def checkHost (uri host stableNodeId agent agentType : String) : Except String Unit :=
  if host ≠ "host" ∨ agent ≠ "agent" then
    .error ("SPIFFE URI must match \"host/<id>/agent/<type>[/instance/<id>]\": " ++ uri)
  else if stableNodeId = "" ∨ agentType = "" then
    .error ("SPIFFE URI has empty stableNodeId or agentType: " ++ uri)
  else do
    checkComponent uri "stableNodeId" stableNodeId
    checkComponent uri "agentType" agentType

def parseHost (uri : String) : List String → Except String ParsedSpiffeUri
  | [host, stableNodeId, agent, agentType] => do
      checkHost uri host stableNodeId agent agentType
      return .host stableNodeId agentType none uri
  | [host, stableNodeId, agent, agentType, tail, instanceId] => do
      checkHost uri host stableNodeId agent agentType
      if tail ≠ "instance" then
        throw ("SPIFFE URI 4-component form must use \"/instance/\": " ++ uri)
      if instanceId = "" then throw ("SPIFFE URI has empty instanceId: " ++ uri)
      checkComponent uri "instanceId" instanceId
      return .host stableNodeId agentType (some instanceId) uri
  | tokens =>
      throw ("SPIFFE URI must have 3 or 4 components (4 or 6 path tokens), got " ++
        toString tokens.length ++ ": " ++ uri)

def parsePath (uri : String) : List String → Except String ParsedSpiffeUri
  | "node" :: tokens => parseNode uri tokens
  | tokens => parseHost uri tokens

/-- The error is the message of the `SpiffeUriError`. -/
def parseSpiffeUri (uri : String) : Except String ParsedSpiffeUri :=
  if uri = "" then .error "SPIFFE URI must be a non-empty string"
  else
    match afterPrefix (SPIFFE_PREFIX ++ "/").toList uri.toList with
    | none =>
        .error ("SPIFFE URI must start with \"" ++ SPIFFE_PREFIX ++ "/\", got: " ++ uri)
    | some rest => parsePath uri (segments '/' (String.ofList rest))

/-! ## Identities and instances -/

def nodeUri (nodePeerId : String) : String := SPIFFE_PREFIX ++ "/node/" ++ nodePeerId

def hostUri (stableNodeId agentType : String) : String :=
  SPIFFE_PREFIX ++ "/host/" ++ stableNodeId ++ "/agent/" ++ agentType

/-- The daemon that a parsed URI names. -/
def ParsedSpiffeUri.daemon : ParsedSpiffeUri → String
  | node nodePeerId _ => nodeUri nodePeerId
  | host stableNodeId agentType _ _ => hostUri stableNodeId agentType

def ParsedSpiffeUri.tail : ParsedSpiffeUri → Option String
  | node _ _ => none
  | host _ _ instanceId _ => instanceId

def normalizeAgentId (uri : String) : Except String String :=
  (parseSpiffeUri uri).map ParsedSpiffeUri.daemon

def getAgentInstance (uri : String) : Except String (Option String) :=
  (parseSpiffeUri uri).map ParsedSpiffeUri.tail

/-! ## What is accepted -/

namespace ParsedSpiffeUri

def raw : ParsedSpiffeUri → String
  | node _ raw => raw
  | host _ _ _ raw => raw

/-- The texts of the components have their characters. -/
def Valid : ParsedSpiffeUri → Prop
  | node nodePeerId _ => isPeerId nodePeerId = true
  | host stableNodeId agentType instanceId _ =>
      isComponent stableNodeId = true ∧ isComponent agentType = true ∧
        ∀ id ∈ instanceId, isComponent id = true

def tokens : ParsedSpiffeUri → List String
  | node nodePeerId _ => ["node", nodePeerId]
  | host stableNodeId agentType none _ => ["host", stableNodeId, "agent", agentType]
  | host stableNodeId agentType (some id) _ =>
      ["host", stableNodeId, "agent", agentType, "instance", id]

/-- The URI of the components. -/
def uri (parsed : ParsedSpiffeUri) : String :=
  parsed.daemon ++ parsed.tail.elim "" fun id => "/instance/" ++ id

end ParsedSpiffeUri

variable {uri : String} {parsed : ParsedSpiffeUri}

theorem ne_empty_of_isComponent {text : String} (h : isComponent text = true) : text ≠ "" := by
  rintro rfl
  cases h

theorem ne_empty_of_isPeerId {text : String} (h : isPeerId text = true) : text ≠ "" := by
  rintro rfl
  cases h

theorem checkComponent_eq_ok {name text : String} {u : Unit} :
    checkComponent uri name text = .ok u ↔ isComponent text = true := by
  unfold checkComponent
  split <;> simp [*]

theorem checkHost_eq_ok {host stableNodeId agent agentType : String} {u : Unit} :
    checkHost uri host stableNodeId agent agentType = .ok u ↔
      host = "host" ∧ agent = "agent" ∧ isComponent stableNodeId = true ∧
        isComponent agentType = true := by
  unfold checkHost
  split
  case isTrue hwrong =>
    constructor
    · intro h
      cases h
    · rintro ⟨rfl, rfl, -⟩
      simp at hwrong
  case isFalse hwords =>
    rw [not_or, not_not, not_not] at hwords
    split
    case isTrue hempty =>
      constructor
      · intro h
        cases h
      · rintro ⟨-, -, hid, htype⟩
        rcases hempty with hempty | hempty
        · exact absurd hempty (ne_empty_of_isComponent hid)
        · exact absurd hempty (ne_empty_of_isComponent htype)
    case isFalse =>
      rw [Except.bind_eq_ok_iff]
      simp [checkComponent_eq_ok, hwords]

theorem parseNode_eq_ok {tokens : List String} :
    parseNode uri tokens = .ok parsed ↔
      ∃ nodePeerId, tokens = [nodePeerId] ∧ isPeerId nodePeerId = true ∧
        parsed = .node nodePeerId uri := by
  unfold parseNode
  split
  case h_1 nodePeerId =>
    constructor
    · intro h
      split at h
      case isTrue => cases h
      case isFalse =>
        split at h
        case isTrue hid => exact ⟨nodePeerId, rfl, hid, (Except.ok.inj h).symm⟩
        case isFalse => cases h
    · rintro ⟨_, hsame, hid, rfl⟩
      obtain rfl := List.singleton_inj.mp hsame
      rw [if_neg (ne_empty_of_isPeerId hid), if_pos hid]
  case h_2 hshape =>
    constructor
    · intro h
      cases h
    · rintro ⟨nodePeerId, rfl, -⟩
      exact absurd rfl (hshape nodePeerId)

theorem parseHost_eq_ok {tokens : List String} :
    parseHost uri tokens = .ok parsed ↔
      ∃ stableNodeId agentType instanceId,
        parsed = .host stableNodeId agentType instanceId uri ∧ parsed.tokens = tokens ∧
          parsed.Valid := by
  unfold parseHost
  split
  case h_1 host stableNodeId agent agentType =>
    rw [Except.bind_eq_ok_iff]
    simp only [checkHost_eq_ok, Except.pure_eq_ok_iff]
    constructor
    · rintro ⟨-, ⟨rfl, rfl, hid, htype⟩, rfl⟩
      exact ⟨stableNodeId, agentType, none, rfl, rfl, hid, htype, by simp⟩
    · rintro ⟨id, type, instanceId, rfl, htokens, hvalid⟩
      cases instanceId with
      -- an instance has two tokens more
      | some _ => simp [ParsedSpiffeUri.tokens] at htokens
      | none =>
          -- the fixed words are at their places, and the parts are those of the tokens
          obtain ⟨rfl, rfl, rfl, rfl⟩ : "host" = host ∧ id = stableNodeId ∧ "agent" = agent ∧
              type = agentType := by
            simpa [ParsedSpiffeUri.tokens] using htokens
          exact ⟨(), ⟨rfl, rfl, hvalid.1, hvalid.2.1⟩, rfl⟩
  case h_2 host stableNodeId agent agentType tail inst =>
    rw [Except.bind_eq_ok_iff]
    simp only [checkHost_eq_ok]
    constructor
    · rintro ⟨-, ⟨rfl, rfl, hid, htype⟩, h⟩
      split at h
      case isTrue => cases h
      case isFalse htail =>
        rw [not_not] at htail
        subst htail
        split at h
        case isTrue => cases h
        case isFalse =>
          obtain ⟨_, hinst, hparsed⟩ := Except.bind_eq_ok_iff.mp h
          rw [Except.pure_eq_ok_iff] at hparsed
          subst hparsed
          have hcomponent := checkComponent_eq_ok.mp hinst
          exact ⟨stableNodeId, agentType, some inst, rfl, rfl, hid, htype, by simpa using hcomponent⟩
    · rintro ⟨id, type, instanceId, rfl, htokens, hvalid⟩
      cases instanceId with
      | none => simp [ParsedSpiffeUri.tokens] at htokens
      | some id' =>
          obtain ⟨rfl, rfl, rfl, rfl, rfl, rfl⟩ : "host" = host ∧ id = stableNodeId ∧
              "agent" = agent ∧ type = agentType ∧ "instance" = tail ∧ id' = inst := by
            simpa [ParsedSpiffeUri.tokens] using htokens
          have hinst : isComponent id' = true := hvalid.2.2 id' rfl
          refine ⟨(), ⟨rfl, rfl, hvalid.1, hvalid.2.1⟩, ?_⟩
          simp [ne_empty_of_isComponent hinst, checkComponent, hinst]
  -- neither four tokens nor six
  case h_3 hfour hsix =>
    constructor
    · intro h
      cases h
    · rintro ⟨id, type, instanceId, rfl, htokens, -⟩
      cases instanceId with
      | none => exact absurd htokens.symm (hfour _ _ _ _)
      | some _ => exact absurd htokens.symm (hsix _ _ _ _ _ _)

/-- What the two grammars accept. -/
theorem parsePath_eq_ok {tokens : List String} :
    parsePath uri tokens = .ok parsed ↔
      parsed.raw = uri ∧ parsed.tokens = tokens ∧ parsed.Valid := by
  unfold parsePath
  split
  case h_1 rest =>
    rw [parseNode_eq_ok]
    constructor
    · rintro ⟨nodePeerId, rfl, hid, rfl⟩
      exact ⟨rfl, rfl, hid⟩
    · rintro ⟨rfl, htokens, hvalid⟩
      cases parsed with
      | node nodePeerId raw => exact ⟨nodePeerId, (List.cons.inj htokens).2.symm, hvalid, rfl⟩
      | host _ _ instanceId _ => cases instanceId <;> simp [ParsedSpiffeUri.tokens] at htokens
  case h_2 hword =>
    rw [parseHost_eq_ok]
    constructor
    · rintro ⟨id, type, instanceId, rfl, htokens, hvalid⟩
      exact ⟨rfl, htokens, hvalid⟩
    · rintro ⟨rfl, htokens, hvalid⟩
      cases parsed with
      | node nodePeerId raw => exact absurd htokens.symm (hword _)
      | host id type instanceId raw => exact ⟨id, type, instanceId, rfl, htokens, hvalid⟩

theorem isPeerIdText_of_isPeerId {text : String} (h : isPeerId text = true) :
    isPeerIdText text.toList = true := by
  obtain ⟨hlong, -, hchars⟩ := of_decide_eq_true h
  refine decide_eq_true ⟨?_, ?_⟩
  · intro hnil
    rw [hnil] at hlong
    simp at hlong
  · rw [List.all_eq_true] at hchars ⊢
    intro c hc
    have hchar := hchars c hc
    simp only [Bool.and_eq_true] at hchar
    exact hchar.1.1.1.1

theorem isComponent_of_isPeerId {text : String} (h : isPeerId text = true) :
    isComponent text = true := by
  obtain ⟨hne, hchars⟩ := of_decide_eq_true (isPeerIdText_of_isPeerId h)
  refine decide_eq_true ⟨hne, List.all_eq_true.mpr fun c hc => ?_⟩
  simp [List.all_eq_true.mp hchars c hc]

namespace ParsedSpiffeUri

theorem tokens_ne_nil : parsed.tokens ≠ [] := by
  cases parsed with
  | node => simp [tokens]
  | host _ _ instanceId _ => cases instanceId <;> simp [tokens]

theorem isComponent_of_mem_tokens (h : parsed.Valid) :
    ∀ token ∈ parsed.tokens, isComponent token = true := by
  have hwords : isComponent "node" = true ∧ isComponent "host" = true ∧
      isComponent "agent" = true ∧ isComponent "instance" = true := by decide
  cases parsed with
  | node nodePeerId raw =>
      have hid := isComponent_of_isPeerId h
      simp [tokens, hid, hwords]
  | host stableNodeId agentType instanceId raw =>
      obtain ⟨hid, htype, hinst⟩ := h
      cases instanceId with
      | none => simp [tokens, hid, htype, hwords]
      | some inst => simp [tokens, hid, htype, hinst inst rfl, hwords]

/-- The URI is the prefix and the tokens. -/
theorem toList_uri :
    parsed.uri.toList = (SPIFFE_PREFIX ++ "/").toList ++ (joinSegments '/' parsed.tokens).toList := by
  cases parsed with
  | node => simp [uri, daemon, tail, nodeUri, tokens, joinSegments, List.intercalate]
  | host _ _ instanceId _ =>
      cases instanceId <;>
        simp [uri, daemon, tail, hostUri, tokens, joinSegments, List.intercalate]

end ParsedSpiffeUri

theorem afterPrefix_eq_some {start text rest : List Char} :
    afterPrefix start text = some rest ↔ text = start ++ rest := by
  unfold afterPrefix
  split
  case isTrue hprefix =>
    obtain ⟨k, rfl⟩ := hprefix
    simp
  case isFalse hnot =>
    constructor
    · intro h
      cases h
    · rintro rfl
      exact absurd (List.prefix_append _ _) hnot

/-- A URI is accepted exactly if it is the URI of some components. -/
theorem parseSpiffeUri_eq_ok :
    parseSpiffeUri uri = .ok parsed ↔ parsed.raw = uri ∧ parsed.uri = uri ∧ parsed.Valid := by
  have hpath : parsed.uri = uri ↔
      uri.toList = (SPIFFE_PREFIX ++ "/").toList ++ (joinSegments '/' parsed.tokens).toList := by
    rw [← String.toList_inj, ParsedSpiffeUri.toList_uri, eq_comm]
  unfold parseSpiffeUri
  split
  case isTrue hempty =>
    constructor
    · intro h
      cases h
    · rintro ⟨-, huri, -⟩
      rw [hpath, hempty] at huri
      simp [SPIFFE_PREFIX] at huri
  case isFalse =>
    split
    case h_1 hnone =>
      constructor
      · intro h
        cases h
      · rintro ⟨-, huri, -⟩
        rw [hpath, ← afterPrefix_eq_some, hnone] at huri
        cases huri
    case h_2 rest hrest =>
      rw [afterPrefix_eq_some] at hrest
      rw [parsePath_eq_ok, hpath, hrest, List.append_cancel_left_eq]
      constructor
      · rintro ⟨hraw, htokens, hvalid⟩
        refine ⟨hraw, ?_, hvalid⟩
        rw [htokens, joinSegments_segments, String.toList_ofList]
      · rintro ⟨hraw, hjoined, hvalid⟩
        refine ⟨hraw, ?_, hvalid⟩
        rw [hjoined, String.ofList_toList]
        refine (segments_joinSegments ?_ ParsedSpiffeUri.tokens_ne_nil).symm
        intro token htoken
        exact notMem_of_isComponent
          (ParsedSpiffeUri.isComponent_of_mem_tokens hvalid token htoken) (by decide)

/-! ## Instances of a daemon -/

/-- A component of an instance URI to build. -/
def checkPart (label value : String) : Except String Unit :=
  if isComponent value then .ok ()
  else
    .error ("buildInstanceUri: " ++ label ++ " contains invalid characters (must match " ++
      SPIFFE_COMPONENT_REGEX ++ "): " ++ value)

def buildInstanceUri (stableNodeId agentType instanceId : String) : Except String String :=
  if stableNodeId = "" ∨ agentType = "" ∨ instanceId = "" then
    .error "buildInstanceUri: all three parts must be non-empty"
  else do
    checkPart "stableNodeId" stableNodeId
    checkPart "agentType" agentType
    checkPart "instanceId" instanceId
    return hostUri stableNodeId agentType ++ "/instance/" ++ instanceId

/-! ## What the identities are -/

/-- The normal form and the instance of a URI come from one parse. -/
theorem normalizeAgentId_eq_ok {daemon : String} :
    normalizeAgentId uri = .ok daemon ↔
      ∃ parsed : ParsedSpiffeUri, parseSpiffeUri uri = .ok parsed ∧ parsed.daemon = daemon :=
  Except.map_eq_ok_iff

theorem getAgentInstance_eq_ok {tail : Option String} :
    getAgentInstance uri = .ok tail ↔
      ∃ parsed : ParsedSpiffeUri, parseSpiffeUri uri = .ok parsed ∧ parsed.tail = tail :=
  Except.map_eq_ok_iff

/-- A URI without a tail is its own normal form, one with a tail is not. -/
theorem daemon_eq_iff (h : parseSpiffeUri uri = .ok parsed) :
    parsed.daemon = uri ↔ parsed.tail = none := by
  obtain ⟨-, huri, -⟩ := parseSpiffeUri_eq_ok.mp h
  rw [ParsedSpiffeUri.uri] at huri
  cases htail : parsed.tail with
  | none =>
      rw [htail] at huri
      simpa using huri
  | some id =>
      rw [htail] at huri
      have hlength := congrArg String.length huri
      simp only [reduceCtorEq, iff_false]
      rintro hsame
      rw [hsame] at hlength
      simp at hlength

/-- The URI of a daemon is accepted. -/
theorem parseSpiffeUri_daemon (h : parseSpiffeUri uri = .ok parsed) :
    ∃ daemon, parseSpiffeUri parsed.daemon = .ok daemon ∧ daemon.daemon = parsed.daemon := by
  obtain ⟨-, -, hvalid⟩ := parseSpiffeUri_eq_ok.mp h
  cases parsed with
  | node nodePeerId raw =>
      refine ⟨.node nodePeerId (nodeUri nodePeerId), parseSpiffeUri_eq_ok.mpr ⟨rfl, ?_, hvalid⟩, rfl⟩
      exact String.append_empty
  | host stableNodeId agentType instanceId raw =>
      refine ⟨.host stableNodeId agentType none (hostUri stableNodeId agentType),
        parseSpiffeUri_eq_ok.mpr ⟨rfl, ?_, hvalid.1, hvalid.2.1, by simp⟩, rfl⟩
      exact String.append_empty

/-- What is in normal form stays as it is. -/
theorem normalizeAgentId_idem {daemon : String} (h : normalizeAgentId uri = .ok daemon) :
    normalizeAgentId daemon = .ok daemon := by
  obtain ⟨parsed, hparsed, rfl⟩ := normalizeAgentId_eq_ok.mp h
  exact normalizeAgentId_eq_ok.mpr (parseSpiffeUri_daemon hparsed)

theorem checkPart_eq_ok {label value : String} {u : Unit} :
    checkPart label value = .ok u ↔ isComponent value = true := by
  unfold checkPart
  split <;> simp [*]

/-- An instance URI is the URI of a valid instance. -/
theorem buildInstanceUri_eq_ok {stableNodeId agentType instanceId : String} :
    buildInstanceUri stableNodeId agentType instanceId = .ok uri ↔
      (isComponent stableNodeId = true ∧ isComponent agentType = true ∧
        isComponent instanceId = true) ∧
        hostUri stableNodeId agentType ++ "/instance/" ++ instanceId = uri := by
  unfold buildInstanceUri
  split
  case isTrue hempty =>
    constructor
    · intro h
      cases h
    · rintro ⟨⟨hid, htype, hinst⟩, -⟩
      simp [ne_empty_of_isComponent hid, ne_empty_of_isComponent htype,
        ne_empty_of_isComponent hinst] at hempty
  case isFalse =>
    simp only [Except.bind_eq_ok_iff, checkPart_eq_ok, Except.pure_eq_ok_iff]
    constructor
    · rintro ⟨-, hid, -, htype, -, hinst, huri⟩
      exact ⟨⟨hid, htype, hinst⟩, huri⟩
    · rintro ⟨⟨hid, htype, hinst⟩, huri⟩
      exact ⟨(), hid, (), htype, (), hinst, huri⟩

/-- A valid instance of a legacy identity parses to its components. -/
theorem parseSpiffeUri_instance {stableNodeId agentType instanceId : String}
    (hid : isComponent stableNodeId = true) (htype : isComponent agentType = true)
    (hinst : isComponent instanceId = true) :
    parseSpiffeUri (hostUri stableNodeId agentType ++ "/instance/" ++ instanceId) =
      .ok (.host stableNodeId agentType (some instanceId)
        (hostUri stableNodeId agentType ++ "/instance/" ++ instanceId)) := by
  refine parseSpiffeUri_eq_ok.mpr ⟨rfl, ?_, hid, htype, by simpa using hinst⟩
  simp [ParsedSpiffeUri.uri, ParsedSpiffeUri.daemon, ParsedSpiffeUri.tail, String.append_assoc]

end ThinkLocal.Spiffe
