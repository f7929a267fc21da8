import ThinkLocal.Mcp.Ingress

/-!
# Tiers of untrusted names

The name of a server comes from the caller and is looked up in a plain object.  The tier of a call
and the reason for its gate are had for every name that is no property of `Object.prototype`.
-/

namespace ThinkLocal.Mcp

open Js

variable {toLowerCase : String → String} {server : String} {payload : Option Registry.Json}

/-! ## Tiers and reasons -/

theorem maxTier_gate_ne_self (tier : McpExecutionTier) : maxTier .gate tier ≠ .self := by
  cases tier <;> decide

/-- A call of a governed server is `self` for the tools that only read. -/
theorem governedTier_eq_self {classes : ServerToolClasses} {name : String} :
    governedTier toLowerCase classes name = .self ↔ name ≠ "" ∧ name ∈ classes.readOnly := by
  unfold governedTier
  by_cases hread : name ≠ "" ∧ name ∈ classes.readOnly
  · rw [if_pos hread]
    exact ⟨fun _ => hread, fun _ => rfl⟩
  · rw [if_neg hread]
    refine ⟨fun h => ?_, fun h => absurd h hread⟩
    split_ifs at h with hconsensus
    exact absurd h (maxTier_gate_ne_self _)

/-- The name finds a property of `Object.prototype`. -/
def Inherited (toLowerCase : String → String) (server : String) : Prop :=
  canonicalizeServerName toLowerCase server ∈ objectPrototypeNames

theorem classes_of_inherited (h : Inherited toLowerCase server) :
    SERVER_TOOL_CLASSES (canonicalizeServerName toLowerCase server) = .inherited := by
  have hname : canonicalizeServerName toLowerCase server ∈ objectPrototypeNames := h
  unfold SERVER_TOOL_CLASSES
  rw [if_neg, if_pos hname]
  intro hunifi
  have hname : "unifi" ∈ objectPrototypeNames := hunifi ▸ h
  exact absurd hname (by decide)

theorem classes_ne_inherited (h : ¬ Inherited toLowerCase server) :
    SERVER_TOOL_CLASSES (canonicalizeServerName toLowerCase server) ≠ .inherited := by
  unfold SERVER_TOOL_CLASSES
  split_ifs with hunifi hname
  · exact nofun
  · exact absurd hname h
  · exact nofun

theorem isToolCall_of_deriveToolName (h : deriveToolName payload ≠ "") :
    isToolCall payload = true := by
  by_contra hcall
  rw [deriveToolName, if_neg hcall] at h
  exact h rfl

/-- The tier is missing for a call of a tool under an inherited name. -/
theorem deriveToolTierForServer_eq_none :
    deriveToolTierForServer toLowerCase server payload = none ↔
      Inherited toLowerCase server ∧ deriveToolName payload ≠ "" := by
  by_cases hserver : Inherited toLowerCase server
  · rw [deriveToolTierForServer, classes_of_inherited hserver]
    dsimp only
    by_cases hname : deriveToolName payload = ""
    · rw [if_neg (not_not.mpr hname)]
      refine iff_of_false ?_ fun h => h.2 hname
      split_ifs <;> exact nofun
    · rw [if_pos (isToolCall_of_deriveToolName hname), if_pos hname]
      exact iff_of_true rfl ⟨hserver, hname⟩
  · refine iff_of_false ?_ fun h => hserver h.1
    rw [deriveToolTierForServer]
    split
    · exact nofun
    · split_ifs <;> exact nofun
    · next hclasses => exact absurd hclasses (classes_ne_inherited hserver)

theorem classifyGateReason_eq_some {tier : McpExecutionTier}
    (h : deriveToolTierForServer toLowerCase server payload = some tier) :
    ∃ reason, classifyGateReason toLowerCase server payload = some reason ∧
      (reason = none ↔ tier = .self) := by
  rw [classifyGateReason, h, Option.map_some]
  refine ⟨_, rfl, ?_⟩
  by_cases hself : tier = .self
  · rw [if_pos hself]
    exact iff_of_true rfl hself
  · rw [if_neg hself]
    refine iff_of_false ?_ hself
    dsimp only
    split_ifs with hinvalid hsensitive hempty
    · exact nofun
    · exact nofun
    · exact not_false
    · split <;> exact nofun

/-! ## Names -/

theorem trim_append_blanks {before after : List Char} (hbefore : ∀ c ∈ before, isWhiteSpace c)
    (hafter : ∀ c ∈ after, isWhiteSpace c) (name : String) :
    trim (String.ofList before ++ name ++ String.ofList after) = trim name := by
  rw [trim_eq, trim_eq, String.toList_append, String.toList_append, String.toList_ofList,
    String.toList_ofList, List.append_assoc, List.dropWhile_append_of_pos hbefore]
  congr 1
  unfold trimEnd
  by_cases hblank : ∀ c ∈ name.toList, isWhiteSpace c
  · rw [List.dropWhile_append_of_pos hblank, List.dropWhile_eq_nil_iff.mpr hafter,
      List.dropWhile_eq_nil_iff.mpr hblank]
  · have hkept : (name.toList.dropWhile isWhiteSpace).isEmpty = false := by
      rw [List.isEmpty_eq_false_iff]
      exact fun hnil => hblank (List.dropWhile_eq_nil_iff.mp hnil)
    rw [List.dropWhile_append, hkept, if_neg Bool.false_ne_true]
    -- the blanks behind the name are the first to go
    rw [List.rdropWhile, List.rdropWhile, List.reverse_append, List.dropWhile_append_of_pos]
    exact fun c hc => hafter c (List.mem_reverse.mp hc)

/-- The second name is the first one in other letter case and with blanks around it. -/
def SameName (toLowerCase : String → String) (server server' : String) : Prop :=
  ∃ (before after : List Char) (name : String), (∀ c ∈ before, isWhiteSpace c) ∧
    (∀ c ∈ after, isWhiteSpace c) ∧ server' = String.ofList before ++ name ++ String.ofList after ∧
    toLowerCase name = toLowerCase server

theorem SameName.canonicalize (hblanks : ∀ text, toLowerCase (trim text) = trim (toLowerCase text))
    {server' : String} (h : SameName toLowerCase server server') :
    canonicalizeServerName toLowerCase server' = canonicalizeServerName toLowerCase server := by
  obtain ⟨before, after, name, hbefore, hafter, rfl, hcase⟩ := h
  calc toLowerCase (trim (String.ofList before ++ name ++ String.ofList after))
      = toLowerCase (trim name) := by rw [trim_append_blanks hbefore hafter]
    _ = trim (toLowerCase name) := hblanks name
    _ = trim (toLowerCase server) := by rw [hcase]
    _ = toLowerCase (trim server) := (hblanks server).symm

/-! ## The ingress -/

/-- The injected functions answer: the check of the sender returns, and an approval settles. -/
structure Wired (deps : McpIngressDeps) : Prop where
  authorizes : ∀ senderUri, deps.isAuthorizedSender senderUri ≠ none
  settles : ∀ resolveApproval, deps.resolveApproval = some resolveApproval →
    ∀ ctx, resolveApproval ctx ≠ none

/-- The handler gives a status and a body, or what the executor gives. -/
def Answered (run : IngressRun) : Prop :=
  (∃ response, run.result = .response response) ∨ run.result = .executed

variable {platform : Platform} {input : McpIngressInput} {deps : McpIngressDeps}
  {calls : List IngressCall}

theorem answered_answer {status : Nat} {body : IngressBody} :
    Answered (.answer calls status body) := .inl ⟨_, rfl⟩

theorem answered_askApproval {ctx : ApprovalContext} {dispatch : RoutableDispatch}
    {awaited : Option Settled} (h : awaited ≠ none) :
    Answered (askApproval calls ctx dispatch awaited) := by
  rcases awaited with - | decision | error
  · exact absurd rfl h
  · rw [askApproval]
    rcases Approval.isApproved decision with error | - | -
    · exact answered_answer
    · dsimp only
      split <;> exact answered_answer
    · exact .inr rfl
  · exact answered_answer

theorem answered_enforceTier (hwired : Wired deps) {senderUri : String}
    {dispatch : RoutableDispatch} (tier : McpExecutionTier) :
    Answered (enforceTier calls input deps senderUri dispatch tier) := by
  unfold enforceTier
  split
  · next hresolver => exact answered_askApproval (hwired.settles _ hresolver _)
  · split
    · exact .inl ⟨_, rfl⟩
    · exact .inr rfl

theorem answered_handleAuthorized (hwired : Wired deps) {senderUri : String}
    (htier : deriveToolTierForServer platform.toLowerCase input.server input.payload ≠ none) :
    Answered (handleAuthorized platform calls input deps senderUri) := by
  unfold handleAuthorized
  split
  · exact answered_answer
  · split
    · exact answered_answer
    · exact answered_answer
    · split
      · next hnone => exact absurd hnone htier
      · exact answered_enforceTier hwired _

theorem answered_handleMcpIngress (hwired : Wired deps)
    (htier : deriveToolTierForServer platform.toLowerCase input.server input.payload ≠ none) :
    Answered (handleMcpIngress platform input deps) := by
  unfold handleMcpIngress
  cases hsender : input.senderUri with
  | none => exact answered_answer
  | some senderUri =>
      dsimp only
      split
      · exact answered_answer
      · split
        · next hthrown => exact absurd hthrown (hwired.authorizes senderUri)
        · exact answered_answer
        · exact answered_handleAuthorized hwired htier

/-! ## The whole path -/

/-- The tier and the reason of a call are had, fail closed and independent of how the name is
written, and the ingress answers. -/
structure TotalAndFailClosed (platform : Platform) (server : String) (payload : Option Registry.Json) :
    Prop where
  total : ∃ tier reason,
    deriveToolTierForServer platform.toLowerCase server payload = some tier ∧
    classifyGateReason platform.toLowerCase server payload = some reason ∧
    (reason = none ↔ tier = .self)
  sameName : ∀ server', SameName platform.toLowerCase server server' →
    deriveToolTierForServer platform.toLowerCase server' payload =
      deriveToolTierForServer platform.toLowerCase server payload ∧
    classifyGateReason platform.toLowerCase server' payload =
      classifyGateReason platform.toLowerCase server payload
  readOnly : ∀ classes,
    SERVER_TOOL_CLASSES (canonicalizeServerName platform.toLowerCase server) = .governed classes →
    isToolCall payload = true →
    deriveToolTierForServer platform.toLowerCase server payload = some .self →
      deriveToolName payload ∈ classes.readOnly
  answered : ∀ input deps, input.server = server → input.payload = payload → Wired deps →
    Answered (handleMcpIngress platform input deps)

/-- All of it holds exactly unless a tool is called under the name of a property of
`Object.prototype`. -/
theorem totalAndFailClosed_iff
    (hblanks : ∀ text, platform.toLowerCase (trim text) = trim (platform.toLowerCase text)) :
    TotalAndFailClosed platform server payload ↔
      ¬ (Inherited platform.toLowerCase server ∧ deriveToolName payload ≠ "") := by
  rw [← deriveToolTierForServer_eq_none]
  constructor
  · intro h hnone
    -- without a tier the answer is an exception
    obtain ⟨tier, -, htier, -⟩ := h.total
    rw [hnone] at htier
    cases htier
  · intro htier
    refine
      { total := ?_
        sameName := fun server' hsame => ?_
        readOnly := fun classes hclasses hcall hself => ?_
        answered := fun input deps hserver hpayload hwired => ?_ }
    · obtain ⟨tier, hsome⟩ := Option.ne_none_iff_exists'.mp htier
      obtain ⟨reason, hreason, hiff⟩ := classifyGateReason_eq_some hsome
      exact ⟨tier, reason, hsome, hreason, hiff⟩
    · have hcanonical := hsame.canonicalize hblanks
      constructor
      · rw [deriveToolTierForServer, deriveToolTierForServer, hcanonical]
      · rw [classifyGateReason, classifyGateReason, deriveToolTierForServer,
          deriveToolTierForServer, hcanonical]
    · rw [deriveToolTierForServer, hclasses] at hself
      dsimp only at hself
      rw [if_pos hcall] at hself
      exact (governedTier_eq_self.mp (Option.some.inj hself)).2
    · subst hserver hpayload
      exact answered_handleMcpIngress hwired htier

/-- Lower case for the letters of ASCII. -/
def asciiLower (c : Char) : Char := if 'A' ≤ c ∧ c ≤ 'Z' then Char.ofNat (c.toNat + 32) else c

def asciiPlatform : Platform where
  toLowerCase := fun text => String.ofList (text.toList.map asciiLower)
  parseUrl := fun _ => none
  encodeURIComponent := id

/-- A mapping of the letters commutes with trimming. -/
theorem map_trim {f : Char → Char} (hf : ∀ c, isWhiteSpace (f c) = isWhiteSpace c)
    (text : String) :
    String.ofList ((trim text).toList.map f) = trim (String.ofList (text.toList.map f)) := by
  have hcomp : isWhiteSpace ∘ f = isWhiteSpace := funext hf
  have hdrop : ∀ chars : List Char, (chars.map f).dropWhile isWhiteSpace =
      (chars.dropWhile isWhiteSpace).map f := by
    intro chars
    rw [List.dropWhile_map, hcomp]
  rw [trim, trim, String.toList_ofList, String.toList_ofList, hdrop, ← List.map_reverse, hdrop,
    ← List.map_reverse]

theorem isWhiteSpace_asciiLower (c : Char) : isWhiteSpace (asciiLower c) = isWhiteSpace c := by
  have hletters : ∀ n ∈ List.range' 65 26,
      isWhiteSpace (Char.ofNat (n + 32)) = isWhiteSpace (Char.ofNat n) := by
    decide
  unfold asciiLower
  split_ifs with hletter
  · have hlow : 65 ≤ c.toNat := hletter.1
    have hhigh : c.toNat ≤ 90 := hletter.2
    have hmem : c.toNat ∈ List.range' 65 26 := List.mem_range'_1.mpr ⟨hlow, by omega⟩
    simpa only [Char.ofNat_toNat] using hletters c.toNat hmem
  · rfl

theorem asciiPlatform_trim (text : String) :
    asciiPlatform.toLowerCase (trim text) = trim (asciiPlatform.toLowerCase text) :=
  map_trim isWhiteSpace_asciiLower text

/-- `tools/call` of one tool. -/
def toolCall (name : String) : Registry.Json :=
  .object [("method", .string "tools/call"), ("params", .object [("name", .string name)])]

theorem totalAndFailClosed_unifi :
    TotalAndFailClosed asciiPlatform " UniFi " (some (toolCall "list_clients")) := by
  have hother : ¬ Inherited asciiPlatform.toLowerCase " UniFi " := by
    unfold Inherited
    decide +kernel
  exact (totalAndFailClosed_iff asciiPlatform_trim).mpr fun h => hother h.1

/-- A node that serves a server of the name `constructor` itself. -/
def constructorInput : McpIngressInput where
  server := "constructor"
  senderUri := some "spiffe://thinklocal/node/A"
  capabilities :=
    [{ skill_id := "mcp:constructor", version := "1.0.0", description := "", agent_id := "B"
       health := .healthy, trust_level := .finite 3, category := "mcp", permissions := some [] }]
  payload := some (toolCall "list_clients")

def openDeps : McpIngressDeps where
  selfAgentId := "B"
  resolvePeer := fun _ => .missing
  isAuthorizedSender := fun _ => some true
  requireServerIdentity := false
  resolveApproval := none

/-- There is no tier for a tool of `constructor`, and the ingress throws. -/
theorem constructor_throws :
    deriveToolTierForServer asciiPlatform.toLowerCase constructorInput.server
      constructorInput.payload = none ∧
    (handleMcpIngress asciiPlatform constructorInput openDeps).result = .threw ∧
    Wired openDeps ∧
    ¬ ∀ server payload, TotalAndFailClosed asciiPlatform server payload := by
  have hnone : deriveToolTierForServer asciiPlatform.toLowerCase constructorInput.server
      constructorInput.payload = none := by
    decide +kernel
  refine ⟨hnone, by rfl, ⟨fun _ => nofun, nofun⟩, fun hall => ?_⟩
  obtain ⟨tier, -, htier, -⟩ := (hall constructorInput.server constructorInput.payload).total
  rw [hnone] at htier
  cases htier

end ThinkLocal.Mcp
