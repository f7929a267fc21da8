import ThinkLocal.Approval.FailClosed
import ThinkLocal.Approval.FreigabeMatrix

/-!
# Routing an approval

`requestApprovalViaMatrix`: the matrix chooses the channel, and the approver that is injected asks
it.  The approver is not trusted; its promise may be fulfilled with any value, be rejected with any
value or never settle.
-/

namespace ThinkLocal.Approval

open Js Foundation Foundation.Except

structure MatrixApprovalResult where
  decision : ApprovalDecision
  target : Option MatrixTarget

/-- `requestApprovalOn` of an approver, `none` if its promise never settles. -/
abbrev ChannelBoundApprover := String → ApprovalRequest → Option Settled

/-- A call of the router: the channels that it has asked for, and its promise. -/
structure RouterRun where
  asked : List String
  result : Option (Except JsValue MatrixApprovalResult)

/-- The denial without a question. -/
def unasked (note : String) : RouterRun :=
  ⟨[], some (.ok ⟨{ outcome := .deniedNoChannel, note := some (.string note) }, none⟩)⟩

/-- `claimedChannelId`; a getter that throws is none. -/
def claimedChannelId (raw : JsValue) : Option String :=
  if raw.typeof ≠ "object" ∨ raw.isNull then none
  else
    match raw.hasOwn "channelId" with
    | .ok true =>
        match raw.get "channelId" 0 with
        | .ok (.string claimed) => some claimed
        | _ => none
    | _ => none

/-- A decision with the channel that the approver has named instead; the notes of
`normalizeDecision` are texts. -/
def noteClaim (decision : ApprovalDecision) (claimed : String) : ApprovalDecision :=
  let note := "approver claimed channelId: " ++ claimed
  { decision with
    note := some (.string (
      match decision.note with
      | some (.string text) => if text = "" then note else text ++ "; " ++ note
      | _ => note)) }

/-- The `catch` around the approver. -/
def caughtError (target : MatrixTarget) (error : JsValue) : Except JsValue MatrixApprovalResult :=
  (errNote error).map fun note =>
    ⟨{ outcome := .error, channelId := some target.channel, note := some note }, some target⟩

/-- What becomes of the approver's answer. -/
def routedResult (target : MatrixTarget) : Settled → Except JsValue MatrixApprovalResult
  | .rejected error => caughtError target error
  | .fulfilled raw =>
      match normalizeDecision raw target.channel with
      | .error error => caughtError target error
      | .ok decision =>
          match claimedChannelId raw with
          | none => .ok ⟨decision, some target⟩
          | some claimed =>
              if claimed = target.channel then .ok ⟨decision, some target⟩
              else .ok ⟨noteClaim decision claimed, some target⟩

def requestApprovalViaMatrix (matrix : FreigabeMatrix) (approver : ChannelBoundApprover)
    (ctx : ResolveContext) (req : ApprovalRequest) : RouterRun :=
  if ctx.tier ≠ req.tier ∨ ctx.server ≠ req.server ∨ ctx.tool ≠ req.tool then
    unasked "matrix: ctx/req mismatch"
  else
    match (resolveEntry matrix ctx).filter isRoutable with
    | none => unasked "matrix: not routable"
    | some target =>
        ⟨[target.channel], (approver target.channel req).map (routedResult target)⟩

/-! ## What routing promises -/

/-- The context is that of the request. -/
def SameCall (ctx : ResolveContext) (req : ApprovalRequest) : Prop :=
  ctx.tier = req.tier ∧ ctx.server = req.server ∧ ctx.tool = req.tool

/-- The entry that counts for a context: the exact one, or without one the entry for all tools; of
several of a kind the last one. -/
def Selected (matrix : FreigabeMatrix) (ctx : ResolveContext) (entry : FreigabeEntry) : Prop :=
  lastMatch (isExact ctx) matrix.entries = some entry ∨
    (∀ other ∈ matrix.entries, isExact ctx other = false) ∧
      lastMatch (isWildcard ctx) matrix.entries = some entry

/-- The approver is asked at most once, exactly for a routable entry of the call, on the channel of
that entry; only its own outcome approves, and the router does not reject. -/
structure Routes (matrix : FreigabeMatrix) (approver : ChannelBoundApprover) (ctx : ResolveContext)
    (req : ApprovalRequest) (run : RouterRun) : Prop where
  asked_once : run.asked.length ≤ 1
  asked_iff : run.asked ≠ [] ↔
    SameCall ctx req ∧ ∃ entry, Selected matrix ctx entry ∧ isRoutable entry.target = true
  asked_channel : ∀ channel ∈ run.asked, ∃ entry, Selected matrix ctx entry ∧
    entry.channel = channel
  approved : ∀ result, run.result = some (.ok result) → result.decision.outcome = .approved →
    ∃ channel raw, run.asked = [channel] ∧ approver channel req = some (.fulfilled raw) ∧
      OwnApproved raw
  resolves : ∀ error, run.result ≠ some (.error error)

/-- What is thrown at the router has a text: the rejection of the approver, and what reading its
decision throws. -/
def AnswerHasText (channel : String) : Settled → Prop
  | .rejected error => ∃ note, errNote error = .ok note
  | .fulfilled raw => ∀ error, normalizeDecision raw channel = .error error →
      ∃ note, errNote error = .ok note

/-- What is thrown at the router of a call that it asks for has a text. -/
def ThrowsTexts (matrix : FreigabeMatrix) (approver : ChannelBoundApprover) (ctx : ResolveContext)
    (req : ApprovalRequest) : Prop :=
  SameCall ctx req → ∀ entry, Selected matrix ctx entry → isRoutable entry.target = true →
    ∀ settled ∈ approver entry.channel req, AnswerHasText entry.channel settled

/-! ## When it is kept -/

variable {matrix : FreigabeMatrix} {approver : ChannelBoundApprover} {ctx : ResolveContext}
  {req : ApprovalRequest} {target : MatrixTarget} {settled : Settled}

theorem selected_iff {entry : FreigabeEntry} :
    Selected matrix ctx entry ↔ (lastMatch (isExact ctx) matrix.entries).or
      (lastMatch (isWildcard ctx) matrix.entries) = some entry := by
  rw [Selected, ← lastMatch_eq_none_iff]
  cases lastMatch (isExact ctx) matrix.entries <;> simp

/-- The target of the entry that counts. -/
theorem resolveEntry_eq_some_iff :
    resolveEntry matrix ctx = some target ↔
      ∃ entry, Selected matrix ctx entry ∧ entry.target = target := by
  simp only [resolveEntry_eq, Option.map_eq_some_iff, selected_iff]

theorem caughtError_ok_iff {error : JsValue} :
    (∀ thrown, caughtError target error ≠ .error thrown) ↔ ∃ note, errNote error = .ok note := by
  unfold caughtError
  cases herror : errNote error with
  | error thrown => simp [Except.map]
  | ok note => simp [Except.map]

theorem routedResult_ok_iff :
    (∀ thrown, routedResult target settled ≠ .error thrown) ↔
      AnswerHasText target.channel settled := by
  cases settled with
  | rejected error => exact caughtError_ok_iff
  | fulfilled raw =>
      unfold routedResult AnswerHasText
      dsimp only
      cases hdecision : normalizeDecision raw target.channel with
      | error error =>
          dsimp only
          rw [caughtError_ok_iff]
          simp
      | ok decision =>
          dsimp only
          constructor
          · rintro - error herror
            cases herror
          · rintro - thrown hthrown
            split at hthrown
            · cases hthrown
            · split_ifs at hthrown

theorem caughtError_ne_approved {error : JsValue} {result : MatrixApprovalResult}
    (h : caughtError target error = .ok result) : result.decision.outcome ≠ .approved := by
  obtain ⟨note, -, rfl⟩ := map_eq_ok_iff.mp h
  exact fun happroved => by cases happroved

/-- Only an own outcome approves. -/
theorem routedResult_approved {result : MatrixApprovalResult}
    (h : routedResult target settled = .ok result)
    (happroved : result.decision.outcome = .approved) :
    ∃ raw, settled = .fulfilled raw ∧ OwnApproved raw := by
  cases settled with
  | rejected error => exact absurd happroved (caughtError_ne_approved h)
  | fulfilled raw =>
      refine ⟨raw, rfl, ?_⟩
      unfold routedResult at h
      dsimp only at h
      cases hdecision : normalizeDecision raw target.channel with
      | error error =>
          rw [hdecision] at h
          exact absurd happroved (caughtError_ne_approved h)
      | ok decision =>
          rw [hdecision] at h
          dsimp only at h
          -- a claim of another channel changes the note only
          have houtcome : decision.outcome = .approved := by
            split at h
            · rw [← happroved, ← Except.ok.inj h]
            · split_ifs at h
              · rw [← happroved, ← Except.ok.inj h]
              · rw [← happroved, ← Except.ok.inj h, noteClaim]
          exact normalizeDecision_approved hdecision houtcome

/-- Who is not asked is denied. -/
theorem routes_unasked {note : String}
    (h : ¬ (SameCall ctx req ∧
      ∃ entry, Selected matrix ctx entry ∧ isRoutable entry.target = true)) :
    Routes matrix approver ctx req (unasked note) where
  asked_once := Nat.zero_le _
  asked_iff := ⟨fun hasked => absurd rfl hasked, fun hroutable => absurd hroutable h⟩
  asked_channel _ hmem := absurd hmem List.not_mem_nil
  approved result hresult happroved := by
    obtain rfl := Except.ok.inj (Option.some.inj hresult)
    cases happroved
  resolves error herror := by cases Option.some.inj herror

/-- Who is asked answers for itself. -/
theorem routes_asked_iff {entry : FreigabeEntry} (hsame : SameCall ctx req)
    (hselected : Selected matrix ctx entry) (hroutable : isRoutable entry.target = true) :
    Routes matrix approver ctx req
        ⟨[entry.channel], (approver entry.channel req).map (routedResult entry.target)⟩ ↔
      ∀ settled ∈ approver entry.channel req, AnswerHasText entry.channel settled := by
  constructor
  · intro hroutes settled hsettled
    have hresolves : ∀ thrown, routedResult entry.target settled ≠ .error thrown := by
      intro thrown hthrown
      refine hroutes.resolves thrown ?_
      rw [Option.mem_def.mp hsettled, Option.map_some, hthrown]
    exact routedResult_ok_iff.mp hresolves
  · intro htext
    refine ⟨le_rfl, ⟨fun _ => ⟨hsame, entry, hselected, hroutable⟩, fun _ => List.cons_ne_nil _ _⟩,
      fun channel hmem => ⟨entry, hselected, (List.mem_singleton.mp hmem).symm⟩, ?_, ?_⟩
    · intro result hresult happroved
      obtain ⟨settled, hsettled, hrouted⟩ := Option.map_eq_some_iff.mp hresult
      obtain ⟨raw, rfl, hown⟩ := routedResult_approved hrouted happroved
      exact ⟨entry.channel, raw, rfl, hsettled, hown⟩
    · intro error herror
      obtain ⟨settled, hsettled, hrouted⟩ := Option.map_eq_some_iff.mp herror
      exact routedResult_ok_iff.mpr (htext settled hsettled) error hrouted

theorem selected_unique {entry other : FreigabeEntry} (h : Selected matrix ctx entry)
    (hother : Selected matrix ctx other) : entry = other :=
  Option.some.inj ((selected_iff.mp h).symm.trans (selected_iff.mp hother))

theorem routes_iff :
    Routes matrix approver ctx req (requestApprovalViaMatrix matrix approver ctx req) ↔
      ThrowsTexts matrix approver ctx req := by
  unfold requestApprovalViaMatrix ThrowsTexts
  by_cases hsame : SameCall ctx req
  · rw [if_neg (by rw [not_or, not_or]; exact ⟨not_not.mpr hsame.1, not_not.mpr hsame.2.1,
      not_not.mpr hsame.2.2⟩)]
    -- no entry that can be asked is selected, so nobody is asked
    cases htarget : (resolveEntry matrix ctx).filter isRoutable with
    | none =>
        have hno : ∀ entry, Selected matrix ctx entry → isRoutable entry.target ≠ true := by
          intro entry hselected
          exact Option.filter_eq_none_iff.mp htarget entry.target
            (resolveEntry_eq_some_iff.mpr ⟨entry, hselected, rfl⟩)
        refine ⟨fun _ _ entry hselected hroutable => absurd hroutable (hno entry hselected),
          fun _ => routes_unasked ?_⟩
        rintro ⟨-, entry, hselected, hroutable⟩
        exact hno entry hselected hroutable
    | some target =>
        obtain ⟨hresolved, hroutable⟩ := Option.filter_eq_some_iff.mp htarget
        obtain ⟨entry, hselected, rfl⟩ := resolveEntry_eq_some_iff.mp hresolved
        refine (routes_asked_iff hsame hselected hroutable).trans ?_
        constructor
        · intro htext _ other hother _
          obtain rfl := selected_unique hselected hother
          exact htext
        · exact fun htext => htext hsame entry hselected hroutable
  · rw [if_pos (by rw [SameCall, not_and_or, not_and_or] at hsame; exact hsame)]
    refine ⟨fun _ hcall => absurd hcall hsame, fun _ => routes_unasked ?_⟩
    exact fun hcall => hsame hcall.1

/-- Parsing and routing follow the matrix exactly if what is thrown at the router has a text. -/
theorem approval_follows_matrix_iff (raw : Config.Setting) (knownServers : List String)
    (matrix : FreigabeMatrix) (approver : ChannelBoundApprover) (ctx : ResolveContext)
    (req : ApprovalRequest) :
    (∀ parsed, parseFreigabeMatrix raw knownServers = .ok parsed →
        ParsesTo raw knownServers parsed) ∧
      Routes matrix approver ctx req (requestApprovalViaMatrix matrix approver ctx req) ↔
        ThrowsTexts matrix approver ctx req := by
  rw [routes_iff]
  exact ⟨fun h => h.2, fun h => ⟨fun _ hparse => parsesTo_of_parse hparse, h⟩⟩

/-- A matrix that routes all tools of a server to one channel. -/
def unifiMatrix : FreigabeMatrix := ⟨[⟨.gate, "unifi", "*", "telegram", .human "operator"⟩]⟩

/-- The file of the matrix is accepted. -/
example : parseFreigabeMatrix (.table [("entries", .array [.table [("tier", .text "gate"),
      ("server", .text "unifi"), ("channel", .text "telegram"),
      ("decider", .text "human:operator")]])]) ["unifi"] = .ok unifiMatrix := by rfl

/-- The approver rejects with an object without a text, and so does the router. -/
theorem router_rejects :
    ¬ Routes unifiMatrix (fun _ _ => some (.rejected .bare)) ⟨.gate, "unifi", "block_client"⟩
      ⟨"r1", "unifi", "block_client", .gate, "uri", ""⟩
      (requestApprovalViaMatrix unifiMatrix (fun _ _ => some (.rejected .bare))
        ⟨.gate, "unifi", "block_client"⟩ ⟨"r1", "unifi", "block_client", .gate, "uri", ""⟩) := by
  intro hroutes
  exact hroutes.resolves _ rfl

end ThinkLocal.Approval
