import ThinkLocal.Spiffe.SpiffeUri

/-!
# Two grammars for one identity

`peer-identity.ts` reads the identity of a sender and of a certificate with two expressions
of its own, `spiffe-uri.ts` the address of a message with a parser.  For legacy hosts the two
accept the same URIs.  For nodes the expression takes every text of letters and digits, and
so the base32 and base36 forms of a PeerID, while the parser wants 32 to 128 characters of
base58btc.
-/

namespace ThinkLocal.Spiffe

open Foundation Mesh

variable {uri nodePeerId stableNodeId agentType instanceId : String}

theorem nodeUri_eq : nodeUri nodePeerId = peerIdToSpiffeUri nodePeerId := by
  simp only [nodeUri, peerIdToSpiffeUri, SPIFFE_PREFIX, trustDomain]
  rfl

/-! ## Nodes -/

/-- The parser reads a node exactly where the expression reads a PeerID of its own alphabet. -/
theorem parseSpiffeUri_node_iff :
    (∃ raw, parseSpiffeUri uri = .ok (.node nodePeerId raw)) ↔
      spiffeUriToPeerId uri = some nodePeerId ∧ isPeerId nodePeerId = true := by
  simp only [parseSpiffeUri_eq_ok, spiffeUriToPeerId_eq_some_iff]
  constructor
  · rintro ⟨raw, -, huri, hvalid⟩
    have hnode : uri = peerIdToSpiffeUri nodePeerId := by
      rw [← huri, ← nodeUri_eq]
      exact String.append_empty
    exact ⟨⟨hnode, isPeerIdText_of_isPeerId hvalid⟩, hvalid⟩
  · rintro ⟨⟨rfl, -⟩, hid⟩
    refine ⟨peerIdToSpiffeUri nodePeerId, rfl, ?_, hid⟩
    rw [← nodeUri_eq]
    exact String.append_empty

/-! ## Legacy hosts -/

theorem segments_hostUri (hid : isComponent stableNodeId = true)
    (htype : isComponent agentType = true) :
    segments '/' (hostUri stableNodeId agentType) =
      ["spiffe:", "", "thinklocal", "host", stableNodeId, "agent", agentType] := by
  have hjoin : hostUri stableNodeId agentType = joinSegments '/'
      ["spiffe:", "", "thinklocal", "host", stableNodeId, "agent", agentType] := by
    rw [← String.toList_inj]
    simp [hostUri, SPIFFE_PREFIX, joinSegments, List.intercalate]
  rw [hjoin]
  refine segments_joinSegments ?_ (List.cons_ne_nil _ _)
  have hslash : ∀ text : String, isComponent text = true → '/' ∉ text.toList := by
    intro text htext
    exact notMem_of_isComponent htext (by decide)
  simp [hslash _ hid, hslash _ htype]

theorem isLegacyHostUri_iff :
    isLegacyHostUri uri = true ↔
      ∃ stableNodeId agentType, isComponent stableNodeId = true ∧ isComponent agentType = true ∧
        uri = hostUri stableNodeId agentType := by
  unfold isLegacyHostUri
  constructor
  · intro h
    split at h
    case h_1 stableNodeId agentType hsegments =>
      rw [Bool.and_eq_true] at h
      refine ⟨stableNodeId, agentType, h.1, h.2, ?_⟩
      -- what the segments make is the URI again
      have hself : joinSegments '/' (segments '/' uri) = uri := joinSegments_segments
      rw [← hself, segments, hsegments, ← String.toList_inj]
      simp [hostUri, SPIFFE_PREFIX, joinSegments, List.intercalate]
    case h_2 => cases h
  · rintro ⟨stableNodeId, agentType, hid, htype, rfl⟩
    have hsegments := segments_hostUri hid htype
    rw [segments] at hsegments
    rw [hsegments]
    simp [hid, htype]

/-- On legacy hosts the two grammars agree. -/
theorem isLegacyHostUri_iff_parse :
    isLegacyHostUri uri = true ↔
      ∃ stableNodeId agentType raw,
        parseSpiffeUri uri = .ok (.host stableNodeId agentType none raw) := by
  rw [isLegacyHostUri_iff]
  constructor
  · rintro ⟨stableNodeId, agentType, hid, htype, rfl⟩
    refine ⟨stableNodeId, agentType, hostUri stableNodeId agentType, ?_⟩
    exact parseSpiffeUri_eq_ok.mpr ⟨rfl, String.append_empty, hid, htype, by simp⟩
  · rintro ⟨stableNodeId, agentType, raw, hparsed⟩
    obtain ⟨-, huri, hid, htype, -⟩ := parseSpiffeUri_eq_ok.mp hparsed
    refine ⟨stableNodeId, agentType, hid, htype, ?_⟩
    rw [← huri]
    exact String.append_empty

/-! ## Tails -/

/-- A legacy host with a tail is the same daemon, and the tail is read back. -/
theorem instance_of_isLegacyHostUri (huri : isLegacyHostUri uri = true)
    (hinst : isComponent instanceId = true) :
    normalizeAgentId (uri ++ "/instance/" ++ instanceId) = normalizeAgentId uri ∧
      getAgentInstance (uri ++ "/instance/" ++ instanceId) = .ok (some instanceId) := by
  obtain ⟨stableNodeId, agentType, hid, htype, rfl⟩ := isLegacyHostUri_iff.mp huri
  have hparsed := parseSpiffeUri_instance hid htype hinst
  have hdaemon : parseSpiffeUri (hostUri stableNodeId agentType) =
      .ok (.host stableNodeId agentType none (hostUri stableNodeId agentType)) :=
    parseSpiffeUri_eq_ok.mpr ⟨rfl, String.append_empty, hid, htype, by simp⟩
  constructor
  · rw [normalizeAgentId, normalizeAgentId, hparsed, hdaemon]
    rfl
  · rw [getAgentInstance, hparsed]
    rfl

/-- What has a tail is its daemon and that tail. -/
theorem eq_of_getAgentInstance (h : getAgentInstance uri = .ok (some instanceId)) :
    ∃ daemon, isLegacyHostUri daemon = true ∧ isComponent instanceId = true ∧
      uri = daemon ++ "/instance/" ++ instanceId := by
  obtain ⟨parsed, hparsed, htail⟩ := getAgentInstance_eq_ok.mp h
  obtain ⟨-, huri, hvalid⟩ := parseSpiffeUri_eq_ok.mp hparsed
  cases parsed with
  | node => cases htail
  | host stableNodeId agentType tail raw =>
      obtain rfl : tail = some instanceId := htail
      obtain ⟨hid, htype, hinst⟩ := hvalid
      refine ⟨hostUri stableNodeId agentType, ?_, hinst instanceId rfl, ?_⟩
      · exact isLegacyHostUri_iff.mpr ⟨stableNodeId, agentType, hid, htype, rfl⟩
      · rw [← huri, String.append_assoc]
        rfl

/-- A node has no tail: the text with one is not accepted. -/
theorem parseSpiffeUri_node_instance (huri : isCanonicalNodeUri uri = true) (tail : String)
    (parsed : ParsedSpiffeUri) : parseSpiffeUri (uri ++ "/instance/" ++ tail) ≠ .ok parsed := by
  intro hparsed
  obtain ⟨nodePeerId, hid⟩ := Option.isSome_iff_exists.mp huri
  obtain ⟨rfl, -⟩ := spiffeUriToPeerId_eq_some_iff.mp hid
  obtain ⟨-, hsame, hvalid⟩ := parseSpiffeUri_eq_ok.mp hparsed
  have hchars := congrArg String.toList hsame
  cases parsed with
  | node other raw =>
      -- the slash of the tail would be a character of the PeerID
      have hother : other.toList = nodePeerId.toList ++ "/instance/".toList ++ tail.toList := by
        simpa [ParsedSpiffeUri.uri, ParsedSpiffeUri.daemon, ParsedSpiffeUri.tail, nodeUri,
          SPIFFE_PREFIX, peerIdToSpiffeUri, trustDomain] using hchars
      have hmem : '/' ∈ other.toList := by
        rw [hother]
        simp
      exact notMem_of_isComponent (isComponent_of_isPeerId hvalid) (by decide) hmem
  | host stableNodeId agentType instanceId raw =>
      simp [ParsedSpiffeUri.uri, ParsedSpiffeUri.daemon, hostUri, SPIFFE_PREFIX,
        peerIdToSpiffeUri, trustDomain] at hchars

/-! ## Both grammars -/

/-- The identities on which the two modules agree, and what the parser does with tails. -/
theorem identity_grammars_agree :
    (∀ uri nodePeerId, (∃ raw, parseSpiffeUri uri = .ok (.node nodePeerId raw)) ↔
      spiffeUriToPeerId uri = some nodePeerId ∧ isPeerId nodePeerId = true) ∧
    (∀ uri, isLegacyHostUri uri = true ↔ ∃ stableNodeId agentType raw,
      parseSpiffeUri uri = .ok (.host stableNodeId agentType none raw)) ∧
    (∀ nodePeerId, isPeerId nodePeerId = true →
      parseSpiffeUri (peerIdToSpiffeUri nodePeerId) =
        .ok (.node nodePeerId (peerIdToSpiffeUri nodePeerId)) ∧
      spiffeUriToPeerId (peerIdToSpiffeUri nodePeerId) = some nodePeerId) ∧
    (∀ uri daemon, normalizeAgentId uri = .ok daemon → normalizeAgentId daemon = .ok daemon) ∧
    (∀ uri instanceId, isLegacyHostUri uri = true → isComponent instanceId = true →
      normalizeAgentId (uri ++ "/instance/" ++ instanceId) = normalizeAgentId uri ∧
      getAgentInstance (uri ++ "/instance/" ++ instanceId) = .ok (some instanceId)) ∧
    (∀ uri instanceId, getAgentInstance uri = .ok (some instanceId) →
      ∃ daemon, isLegacyHostUri daemon = true ∧ isComponent instanceId = true ∧
        uri = daemon ++ "/instance/" ++ instanceId) ∧
    (∀ uri tail parsed, isCanonicalNodeUri uri = true →
      parseSpiffeUri (uri ++ "/instance/" ++ tail) ≠ .ok parsed) := by
  refine ⟨fun _ _ => parseSpiffeUri_node_iff, fun _ => isLegacyHostUri_iff_parse, ?_,
    fun _ _ => normalizeAgentId_idem, fun _ _ => instance_of_isLegacyHostUri,
    fun _ _ => eq_of_getAgentInstance, fun _ tail parsed huri =>
      parseSpiffeUri_node_instance huri tail parsed⟩
  intro nodePeerId hid
  constructor
  · refine parseSpiffeUri_eq_ok.mpr ⟨rfl, ?_, hid⟩
    rw [← nodeUri_eq]
    exact String.append_empty
  · exact spiffeUriToPeerId_eq_some_iff.mpr ⟨rfl, isPeerIdText_of_isPeerId hid⟩

theorem identity_grammars_agree_codex :
    isLegacyHostUri "spiffe://thinklocal/host/mac/agent/codex" = true ∧
      isComponent "7" = true ∧
      normalizeAgentId "spiffe://thinklocal/host/mac/agent/codex/instance/7" =
        normalizeAgentId "spiffe://thinklocal/host/mac/agent/codex" := by
  have huri : isLegacyHostUri "spiffe://thinklocal/host/mac/agent/codex" = true := by
    decide +kernel
  have hinst : isComponent "7" = true := by decide
  obtain ⟨-, -, -, -, htail, -⟩ := identity_grammars_agree
  exact ⟨huri, hinst, (htail _ _ huri hinst).1⟩

/-- A base36 PeerID has zeros and small l, which the parser does not take. -/
theorem base36_node_not_parsed :
    ¬ ∀ uri, isCanonicalNodeUri uri = true ↔
      ∃ nodePeerId raw, parseSpiffeUri uri = .ok (.node nodePeerId raw) := by
  intro hagree
  have hcanonical : isCanonicalNodeUri ("spiffe://thinklocal/node/" ++
      "k51qzi5uqu5dlvj2baxnqndepeb86cbk3ng7n3i46uzyxzyqj2xjonzllnv0v8") = true := by
    decide +kernel
  obtain ⟨nodePeerId, raw, hparsed⟩ := (hagree _).mp hcanonical
  obtain ⟨hid, hchars⟩ := parseSpiffeUri_node_iff.mp ⟨raw, hparsed⟩
  have hread : spiffeUriToPeerId ("spiffe://thinklocal/node/" ++
      "k51qzi5uqu5dlvj2baxnqndepeb86cbk3ng7n3i46uzyxzyqj2xjonzllnv0v8") =
      some "k51qzi5uqu5dlvj2baxnqndepeb86cbk3ng7n3i46uzyxzyqj2xjonzllnv0v8" := by
    decide +kernel
  obtain rfl := Option.some.inj (hread.symm.trans hid)
  exact absurd hchars (by decide +kernel)

end ThinkLocal.Spiffe
