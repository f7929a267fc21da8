import ThinkLocal.Config.ConfigRevisions
import ThinkLocal.Foundation.Except
import ThinkLocal.Foundation.LastMatch
import ThinkLocal.Mcp.ServiceRegistry

/-!
# The approval matrix

`freigabe-matrix.ts`.  The file is parsed fail-closed: whatever is wrong with one entry makes the
whole matrix invalid.
-/

namespace ThinkLocal.Approval

open Js Mcp Foundation Foundation.Except
open Config (Setting)

/-- Who decides; declared only. -/
inductive Decider
  | human (id : String)
  | consensus (quorum : Number)

structure FreigabeEntry where
  tier : McpExecutionTier
  server : String
  tool : String
  channel : String
  decider : Decider

structure FreigabeMatrix where
  entries : List FreigabeEntry

structure ResolveContext where
  tier : McpExecutionTier
  server : String
  tool : String

structure MatrixTarget where
  channel : String
  decider : Decider

/-! ## Parsing -/

def ENTRY_KEYS : List String := ["tier", "server", "tool", "channel", "decider"]

def WILDCARD : String := "*"

def tierName : McpExecutionTier → String
  | .self => "self"
  | .gate => "gate"
  | .consensus => "consensus"

/-- The tier of `VALID_TIERS` that a text names. -/
def tierOf (text : String) : Option McpExecutionTier :=
  [McpExecutionTier.self, .gate, .consensus].find? fun tier => tierName tier = text

/-- The message of a `FreigabeMatrixError`. -/
def matrixError (reason : String) : String := "Freigabe-Matrix ungültig: " ++ reason

/-- A value that has to be there. -/
def require {α : Type} (reason : String) : Option α → Except String α
  | none => .error (matrixError reason)
  | some a => .ok a

/-- `Number.isInteger(n) && n >= 2`. -/
def isQuorum : Number → Bool
  | .finite q => q.den = 1 ∧ 2 ≤ q
  | _ => false

/-- `Number(digits)`. -/
def digitsValue (digits : List Char) : Number :=
  Decimal.value ⟨false, Nat.ofDigitChars 10 digits 0, 0⟩

def HUMAN : List Char := "human:".toList

def CONSENSUS : List Char := "consensus:".toList

def QUORUM : List Char := "consensus:quorum=".toList

/-- `parseDecider` of a text that begins with `consensus:`. -/
def parseQuorum (text : List Char) (place : String) : Except String Decider :=
  let digits := text.drop QUORUM.length
  if QUORUM <+: text ∧ digits ≠ [] ∧ digits.all Char.isDigit then
    if isQuorum (digitsValue digits) then .ok (.consensus (digitsValue digits))
    else .error (matrixError (place ++ ": 'consensus:quorum=N' verlangt N≥2 (erhalten " ++
      String.ofList (digitsValue digits).text ++ ")"))
  else .error (matrixError (place ++ ": 'consensus' erwartet 'consensus:quorum=N'"))

def parseDecider (raw : Option Setting) (place : String) : Except String Decider :=
  match raw with
  | some (.text text) =>
      if text = "" then
        .error (matrixError (place ++ ": 'decider' muss ein nicht-leerer String sein"))
      else if HUMAN <+: text.toList then
        let id := String.ofList (text.toList.drop HUMAN.length)
        if id = "" then .error (matrixError (place ++ ": 'human:' ohne <id>"))
        else .ok (.human id)
      else if CONSENSUS <+: text.toList then parseQuorum text.toList place
      else .error (matrixError (place ++ ": unbekannte decider-Grammatik '" ++ text ++ "'"))
  | _ => .error (matrixError (place ++ ": 'decider' muss ein nicht-leerer String sein"))

/-- The fields of a plain object; a date is one without fields. -/
def plainFields : Setting → Option (List (String × Setting))
  | .table fields => some fields
  | .date _ => some []
  | _ => none

/-- The `tool` of an entry, `none` if it is no text that is not empty. -/
def parseTool (raw : Option Setting) : Option String :=
  match raw with
  | none => some WILDCARD
  | some (.text tool) => if tool = "" then none else some tool
  | some _ => none

/-- The `channel` of an entry, `none` if it is no text with a visible character. -/
def parseChannel (raw : Option Setting) : Option String :=
  match raw with
  | some (.text channel) => if trim channel = "" then none else some channel
  | _ => none

/-- The `tier` of an entry. -/
def parseTier (raw : Option Setting) : Option McpExecutionTier :=
  match raw with
  | some (.text tier) => tierOf tier
  | _ => none

/-- The `server` of an entry. -/
def parseServer (knownServers : List String) (raw : Option Setting) (place : String) :
    Except String String :=
  let missing := place ++ ": 'server' fehlt (tool-ohne-server ist unzulässig)"
  match raw with
  | some (.text server) =>
      if server = "" then .error (matrixError missing)
      else if server ∈ knownServers then .ok server
      else .error (matrixError (place ++ ": non-kanonischer Server '" ++ server ++ "'"))
  | _ => .error (matrixError missing)

/-- One entry of `parseFreigabeMatrix`, checked up to its key. -/
def parseEntry (knownServers : List String) (raw : Setting) (place : String) :
    Except String FreigabeEntry := do
  let fields ← require (place ++ ": muss ein Objekt sein") (plainFields raw)
  let unknownKeys := (fields.map Prod.fst).filter fun key => key ∉ ENTRY_KEYS
  if unknownKeys ≠ [] then
    .error (matrixError (place ++ ": unbekannte Keys: " ++ ", ".intercalate unknownKeys))
  else
    let tier ← require (place ++ ": ungültige 'tier' (erlaubt: self|gate|consensus)")
      (parseTier (Setting.field fields "tier"))
    let server ← parseServer knownServers (Setting.field fields "server") place
    let tool ← require (place ++ ": 'tool' muss ein nicht-leerer String oder '*' sein")
      (parseTool (Setting.field fields "tool"))
    let channel ← require (place ++ ": 'channel' (channelId) fehlt oder ist leer/whitespace")
      (parseChannel (Setting.field fields "channel"))
    let decider ← parseDecider (Setting.field fields "decider") place
    return { tier, server, tool, channel, decider }

/-- The key of an entry. -/
def specificity (entry : FreigabeEntry) : String :=
  tierName entry.tier ++ "|" ++ entry.server ++ "|" ++ entry.tool

/-- The loop of `parseFreigabeMatrix` from an index on, with the keys that it has seen. -/
def parseEntries (knownServers : List String) :
    Nat → List String → List Setting → Except String (List FreigabeEntry)
  | _, _, [] => .ok []
  | i, seen, raw :: rest => do
      let entry ← parseEntry knownServers raw ("Eintrag #" ++ toString i)
      if specificity entry ∈ seen then
        .error (matrixError ("Duplikat-Spezifität für (" ++ specificity entry ++ ")"))
      else
        let entries ← parseEntries knownServers (i + 1) (specificity entry :: seen) rest
        return entry :: entries

/-- The `entries` of the root, `none` if they are no list. -/
def rawEntries (fields : List (String × Setting)) : Option (List Setting) :=
  match Setting.field fields "entries" with
  | none | some .null => some []
  | some (.array entries) => some entries
  | some _ => none

def parseFreigabeMatrix (raw : Setting) (knownServers : List String) :
    Except String FreigabeMatrix := do
  let fields ← require "Wurzel muss ein Objekt sein" (plainFields raw)
  let unknownRoot := (fields.map Prod.fst).filter fun key => key ≠ "entries"
  if unknownRoot ≠ [] then
    .error (matrixError ("unbekannte Wurzel-Keys: " ++ ", ".intercalate unknownRoot))
  else
    let rawEntries ← require "'entries' muss ein Array sein" (rawEntries fields)
    let entries ← parseEntries knownServers 0 [] rawEntries
    return { entries }

/-! ## Resolving -/

/-- The loop of `resolveEntry`: the exact entry and the one for all tools. -/
def findEntries (ctx : ResolveContext) (found : Option FreigabeEntry × Option FreigabeEntry)
    (entry : FreigabeEntry) : Option FreigabeEntry × Option FreigabeEntry :=
  if entry.tier ≠ ctx.tier ∨ entry.server ≠ ctx.server then found
  else if entry.tool = ctx.tool then (some entry, found.2)
  else if entry.tool = WILDCARD then (found.1, some entry)
  else found

def FreigabeEntry.target (entry : FreigabeEntry) : MatrixTarget := ⟨entry.channel, entry.decider⟩

def resolveEntry (matrix : FreigabeMatrix) (ctx : ResolveContext) : Option MatrixTarget :=
  let found := matrix.entries.foldl (findEntries ctx) (none, none)
  (found.1.or found.2).map FreigabeEntry.target

/-- The decider is well-formed. -/
def Decider.isValid : Decider → Bool
  | .human id => id ≠ ""
  | .consensus quorum => isQuorum quorum

def isRoutable (target : MatrixTarget) : Bool :=
  trim target.channel ≠ "" && target.decider.isValid

/-! ## What is parsed -/

/-- The text declares the decider. -/
inductive DeciderText : String → Decider → Prop
  | human {id : String} : id ≠ "" → DeciderText ("human:" ++ id) (.human id)
  | consensus {digits : List Char} : digits ≠ [] → digits.all Char.isDigit = true →
      isQuorum (digitsValue digits) = true →
      DeciderText ("consensus:quorum=" ++ String.ofList digits) (.consensus (digitsValue digits))

/-- The raw value is a well-formed entry, and which. -/
structure WellFormed (knownServers : List String) (fields : List (String × Setting))
    (entry : FreigabeEntry) : Prop where
  keys : ∀ field ∈ fields, field.1 ∈ ENTRY_KEYS
  tier : Setting.field fields "tier" = some (.text (tierName entry.tier))
  server : Setting.field fields "server" = some (.text entry.server)
  named : entry.server ≠ ""
  known : entry.server ∈ knownServers
  tool : Setting.field fields "tool" = some (.text entry.tool) ∧ entry.tool ≠ "" ∨
    Setting.field fields "tool" = none ∧ entry.tool = WILDCARD
  channel : Setting.field fields "channel" = some (.text entry.channel)
  deliverable : trim entry.channel ≠ ""
  decider : ∃ text, Setting.field fields "decider" = some (.text text) ∧
    DeciderText text entry.decider

theorem parseTier_eq_some {raw : Option Setting} {tier : McpExecutionTier}
    (h : parseTier raw = some tier) : raw = some (.text (tierName tier)) := by
  unfold parseTier at h
  split at h
  · have htext := List.find?_some h
    rw [of_decide_eq_true htext]
  · cases h

theorem parseServer_eq_ok {knownServers : List String} {raw : Option Setting}
    {place server : String} (h : parseServer knownServers raw place = .ok server) :
    raw = some (.text server) ∧ server ≠ "" ∧ server ∈ knownServers := by
  unfold parseServer at h
  dsimp only at h
  split at h
  · split_ifs at h with hempty hknown
    obtain rfl := Except.ok.inj h
    exact ⟨rfl, hempty, hknown⟩
  · cases h

theorem parseTool_eq_some {raw : Option Setting} {tool : String}
    (h : parseTool raw = some tool) :
    raw = some (.text tool) ∧ tool ≠ "" ∨ raw = none ∧ tool = WILDCARD := by
  unfold parseTool at h
  split at h
  · exact .inr ⟨rfl, (Option.some.inj h).symm⟩
  · split_ifs at h with hempty
    obtain rfl := Option.some.inj h
    exact .inl ⟨rfl, hempty⟩
  · cases h

theorem parseChannel_eq_some {raw : Option Setting} {channel : String}
    (h : parseChannel raw = some channel) :
    raw = some (.text channel) ∧ trim channel ≠ "" := by
  unfold parseChannel at h
  split at h
  · split_ifs at h with hempty
    obtain rfl := Option.some.inj h
    exact ⟨rfl, hempty⟩
  · cases h

/-- What follows a start of a text. -/
theorem eq_append_of_startsWith (start : String) {text : String}
    (h : start.toList <+: text.toList) :
    text = start ++ String.ofList (text.toList.drop start.toList.length) := by
  obtain ⟨rest, hrest⟩ := h
  rw [← hrest, List.drop_left]
  apply String.toList_injective
  rw [String.toList_append, String.toList_ofList, hrest]

theorem parseQuorum_eq_ok {text place : String} {decider : Decider}
    (h : parseQuorum text.toList place = .ok decider) : DeciderText text decider := by
  unfold parseQuorum at h
  dsimp only at h
  split_ifs at h with hform hquorum
  obtain ⟨hstart, hdigits, hall⟩ := hform
  obtain rfl := Except.ok.inj h
  have htext : text = "consensus:quorum=" ++ String.ofList (text.toList.drop QUORUM.length) :=
    eq_append_of_startsWith "consensus:quorum=" hstart
  generalize text.toList.drop QUORUM.length = digits at *
  rw [htext]
  exact .consensus hdigits hall hquorum

theorem parseDecider_eq_ok {raw : Option Setting} {place : String} {decider : Decider}
    (h : parseDecider raw place = .ok decider) :
    ∃ text, raw = some (.text text) ∧ DeciderText text decider := by
  unfold parseDecider at h
  split at h
  · next text =>
      refine ⟨text, rfl, ?_⟩
      dsimp only at h
      split_ifs at h with hempty hhuman hid hconsensus
      · obtain rfl := Except.ok.inj h
        have htext : text = "human:" ++ String.ofList (text.toList.drop HUMAN.length) :=
          eq_append_of_startsWith "human:" hhuman
        generalize String.ofList (text.toList.drop HUMAN.length) = id at *
        rw [htext]
        exact .human hid
      · exact parseQuorum_eq_ok h
  · cases h

theorem DeciderText.isValid {text : String} {decider : Decider} (h : DeciderText text decider) :
    decider.isValid = true := by
  cases h with
  | human hid => exact decide_eq_true hid
  | consensus _ _ hquorum => exact hquorum

theorem eq_table_of_plainFields {raw : Setting} {fields : List (String × Setting)}
    (h : plainFields raw = some fields) (hfields : fields ≠ []) : raw = .table fields := by
  cases raw with
  | table _ => rw [Option.some.inj h]
  | date _ => exact absurd (Option.some.inj h).symm hfields
  | _ => cases h

theorem require_eq_ok {α : Type} {reason : String} {value : Option α} {a : α}
    (h : require reason value = .ok a) : value = some a := by
  cases value with
  | none => cases h
  | some b => rw [Except.ok.inj h]

/-- An entry that is parsed is well-formed, and says what it is parsed as. -/
theorem parseEntry_eq_ok {knownServers : List String} {raw : Setting} {place : String}
    {entry : FreigabeEntry} (h : parseEntry knownServers raw place = .ok entry) :
    ∃ fields, raw = .table fields ∧ WellFormed knownServers fields entry := by
  obtain ⟨fields, hplain, h⟩ := bind_eq_ok_iff.mp h
  dsimp only at h
  split_ifs at h with hkeys
  -- the fields are parsed in this order, and each can end it with its error
  obtain ⟨tier, htier, h⟩ := bind_eq_ok_iff.mp h
  obtain ⟨server, hserver, h⟩ := bind_eq_ok_iff.mp h
  obtain ⟨tool, htool, h⟩ := bind_eq_ok_iff.mp h
  obtain ⟨channel, hchannel, h⟩ := bind_eq_ok_iff.mp h
  obtain ⟨decider, hdecider, h⟩ := bind_eq_ok_iff.mp h
  obtain rfl := pure_eq_ok_iff.mp h
  have htierField := parseTier_eq_some (require_eq_ok htier)
  obtain ⟨hserverField, hnamed, hknown⟩ := parseServer_eq_ok hserver
  obtain ⟨hchannelField, hdeliverable⟩ := parseChannel_eq_some (require_eq_ok hchannel)
  have hfields : fields ≠ [] := by
    rintro rfl
    cases htierField
  have hentryKeys : ∀ field ∈ fields, field.1 ∈ ENTRY_KEYS := by
    intro field hfield
    have hnone := List.filter_eq_nil_iff.mp (not_ne_iff.mp hkeys) field.1
      (List.mem_map_of_mem hfield)
    simpa using hnone
  exact ⟨fields, eq_table_of_plainFields (require_eq_ok hplain) hfields,
    { keys := hentryKeys
      tier := htierField
      server := hserverField
      named := hnamed
      known := hknown
      tool := parseTool_eq_some (require_eq_ok htool)
      channel := hchannelField
      deliverable := hdeliverable
      decider := parseDecider_eq_ok hdecider }⟩

/-- The raw value is a table that is a well-formed entry. -/
def IsEntry (knownServers : List String) (raw : Setting) (entry : FreigabeEntry) : Prop :=
  ∃ fields, raw = .table fields ∧ WellFormed knownServers fields entry

/-- The loop keeps the order of the entries, and no two have one key. -/
theorem parseEntries_eq_ok {knownServers : List String} {i : Nat} {seen : List String}
    {raws : List Setting} {entries : List FreigabeEntry}
    (h : parseEntries knownServers i seen raws = .ok entries) :
    List.Forall₂ (IsEntry knownServers) raws entries ∧
      (entries.map specificity).Nodup ∧ ∀ entry ∈ entries, specificity entry ∉ seen := by
  induction raws generalizing i seen entries with
  | nil =>
      obtain rfl := Except.ok.inj h
      exact ⟨.nil, List.nodup_nil, fun _ hmem => absurd hmem List.not_mem_nil⟩
  | cons raw raws ih =>
      rw [parseEntries] at h
      obtain ⟨entry, hentry, h⟩ := bind_eq_ok_iff.mp h
      -- the second entry of one key is an error
      split_ifs at h with hseen
      obtain ⟨rest, hrest, h⟩ := bind_eq_ok_iff.mp h
      obtain rfl := pure_eq_ok_iff.mp h
      obtain ⟨hforall, hnodup, hnew⟩ := ih hrest
      refine ⟨.cons (parseEntry_eq_ok hentry) hforall, ?_, ?_⟩
      · rw [List.map_cons, List.nodup_cons]
        refine ⟨fun hmem => ?_, hnodup⟩
        obtain ⟨other, hother, hsame⟩ := List.mem_map.mp hmem
        exact hnew other hother (hsame ▸ List.mem_cons_self)
      · intro other hmem
        rcases List.mem_cons.mp hmem with rfl | hmem
        · exact hseen
        · exact fun hold => hnew other hmem (List.mem_cons_of_mem _ hold)

/-! ## What is resolved -/

/-- The context that an entry is for. -/
def FreigabeEntry.context (entry : FreigabeEntry) : ResolveContext :=
  ⟨entry.tier, entry.server, entry.tool⟩

/-- The key of an entry by its context. -/
def contextKey (ctx : ResolveContext) : String :=
  tierName ctx.tier ++ "|" ++ ctx.server ++ "|" ++ ctx.tool

/-- No two entries are for the same tier, server and tool. -/
def FreigabeMatrix.Distinct (matrix : FreigabeMatrix) : Prop :=
  (matrix.entries.map FreigabeEntry.context).Nodup

def isExact (ctx : ResolveContext) (entry : FreigabeEntry) : Bool :=
  entry.tier = ctx.tier ∧ entry.server = ctx.server ∧ entry.tool = ctx.tool

/-- The entry is for all tools, and the context is for one. -/
def isWildcard (ctx : ResolveContext) (entry : FreigabeEntry) : Bool :=
  entry.tier = ctx.tier ∧ entry.server = ctx.server ∧ entry.tool ≠ ctx.tool ∧
    entry.tool = WILDCARD

theorem findEntries_eq (ctx : ResolveContext) (found : Option FreigabeEntry × Option FreigabeEntry)
    (entry : FreigabeEntry) :
    findEntries ctx found entry =
      (if isExact ctx entry then some entry else found.1,
        if isWildcard ctx entry then some entry else found.2) := by
  unfold findEntries isExact isWildcard
  by_cases hserver : entry.tier = ctx.tier ∧ entry.server = ctx.server
  · obtain ⟨htier, hserver⟩ := hserver
    by_cases htool : entry.tool = ctx.tool
    · simp [htier, hserver, htool]
    · simp only [htier, hserver, htool, ne_eq, not_true_eq_false, or_self, if_false, true_and,
        and_false, decide_false, not_false_eq_true, Bool.false_eq_true, decide_eq_true_eq]
      split_ifs <;> rfl
  · have hother : entry.tier ≠ ctx.tier ∨ entry.server ≠ ctx.server := not_and_or.mp hserver
    rw [if_pos hother]
    simp [← and_assoc, hserver]

theorem foldl_findEntries (ctx : ResolveContext) (entries : List FreigabeEntry)
    (found : Option FreigabeEntry × Option FreigabeEntry) :
    entries.foldl (findEntries ctx) found =
      ((lastMatch (isExact ctx) entries).or found.1,
        (lastMatch (isWildcard ctx) entries).or found.2) := by
  rw [← foldl_eq_lastMatch, ← foldl_eq_lastMatch]
  induction entries generalizing found with
  | nil => rfl
  | cons entry entries ih => rw [List.foldl_cons, ih, findEntries_eq, List.foldl_cons, List.foldl_cons]

/-- The exact entry comes before the one for all tools; of several the last one counts. -/
theorem resolveEntry_eq (matrix : FreigabeMatrix) (ctx : ResolveContext) :
    resolveEntry matrix ctx = ((lastMatch (isExact ctx) matrix.entries).or
      (lastMatch (isWildcard ctx) matrix.entries)).map FreigabeEntry.target := by
  rw [resolveEntry, foldl_findEntries, Option.or_none, Option.or_none]

section Distinct

variable {matrix : FreigabeMatrix} {ctx : ResolveContext} {entry : FreigabeEntry}

theorem isExact_iff : isExact ctx entry = true ↔ entry.context = ctx := by
  obtain ⟨tier, server, tool⟩ := ctx
  simp [isExact, FreigabeEntry.context]

theorem context_of_isWildcard (h : isWildcard ctx entry = true) :
    entry.context = ⟨ctx.tier, ctx.server, WILDCARD⟩ := by
  obtain ⟨htier, hserver, -, htool⟩ := of_decide_eq_true h
  rw [FreigabeEntry.context, htier, hserver, htool]

theorem FreigabeMatrix.Distinct.eq_of_context (h : matrix.Distinct) {other : FreigabeEntry}
    (hentry : entry ∈ matrix.entries) (hother : other ∈ matrix.entries)
    (hsame : entry.context = other.context) : entry = other :=
  List.inj_on_of_nodup_map h hentry hother hsame

theorem oneMatch_isExact (h : matrix.Distinct) (ctx : ResolveContext) :
    OneMatch (isExact ctx) matrix.entries := by
  intro entry hentry other hother hexact hexact'
  exact h.eq_of_context hentry hother
    ((isExact_iff.mp hexact).trans (isExact_iff.mp hexact').symm)

theorem oneMatch_isWildcard (h : matrix.Distinct) (ctx : ResolveContext) :
    OneMatch (isWildcard ctx) matrix.entries := by
  intro entry hentry other hother hwild hwild'
  exact h.eq_of_context hentry hother
    ((context_of_isWildcard hwild).trans (context_of_isWildcard hwild').symm)

/-- The order of distinct entries does not matter. -/
theorem resolveEntry_perm (h : matrix.Distinct) {entries : List FreigabeEntry}
    (hperm : entries.Perm matrix.entries) (ctx : ResolveContext) :
    resolveEntry ⟨entries⟩ ctx = resolveEntry matrix ctx := by
  rw [resolveEntry_eq, resolveEntry_eq, lastMatch_perm (oneMatch_isExact h ctx) hperm,
    lastMatch_perm (oneMatch_isWildcard h ctx) hperm]

/-- A distinct entry is found by its own context. -/
theorem resolveEntry_context (h : matrix.Distinct) (hentry : entry ∈ matrix.entries) :
    resolveEntry matrix entry.context = some entry.target := by
  have hexact : lastMatch (isExact entry.context) matrix.entries = some entry :=
    (lastMatch_eq_some_iff (oneMatch_isExact h _)).mpr ⟨hentry, isExact_iff.mpr rfl⟩
  rw [resolveEntry_eq, hexact]
  rfl

end Distinct

/-! ## The matrix of a file -/

/-- What parsing makes of a raw matrix. -/
structure ParsesTo (raw : Setting) (knownServers : List String) (matrix : FreigabeMatrix) :
    Prop where
  entries : ∃ fields raws, plainFields raw = some fields ∧ rawEntries fields = some raws ∧
    List.Forall₂ (IsEntry knownServers) raws matrix.entries
  distinct : matrix.Distinct
  routable : ∀ entry ∈ matrix.entries,
    resolveEntry matrix entry.context = some entry.target ∧ isRoutable entry.target = true
  order : ∀ entries : List FreigabeEntry, entries.Perm matrix.entries → ∀ ctx,
    resolveEntry ⟨entries⟩ ctx = resolveEntry matrix ctx

theorem isRoutable_of_isEntry {knownServers : List String} {raw : Setting} {entry : FreigabeEntry}
    (h : IsEntry knownServers raw entry) : isRoutable entry.target = true := by
  obtain ⟨fields, -, hentry⟩ := h
  obtain ⟨text, -, htext⟩ := hentry.decider
  simp [isRoutable, FreigabeEntry.target, hentry.deliverable, htext.isValid]

theorem exists_isEntry {knownServers : List String} {raws : List Setting}
    {entries : List FreigabeEntry} (h : List.Forall₂ (IsEntry knownServers) raws entries)
    {entry : FreigabeEntry} (hentry : entry ∈ entries) :
    ∃ raw, IsEntry knownServers raw entry := by
  induction h with
  | nil => cases hentry
  | cons hhead _ ih =>
      rcases List.mem_cons.mp hentry with rfl | htail
      · exact ⟨_, hhead⟩
      · exact ih htail

theorem parsesTo_of_parse {raw : Setting} {knownServers : List String} {matrix : FreigabeMatrix}
    (h : parseFreigabeMatrix raw knownServers = .ok matrix) :
    ParsesTo raw knownServers matrix := by
  obtain ⟨fields, hplain, h⟩ := bind_eq_ok_iff.mp h
  dsimp only at h
  split_ifs at h with hroot
  obtain ⟨raws, hraws, h⟩ := bind_eq_ok_iff.mp h
  obtain ⟨entries, hentries, h⟩ := bind_eq_ok_iff.mp h
  obtain rfl := pure_eq_ok_iff.mp h
  obtain ⟨hforall, hnodup, -⟩ := parseEntries_eq_ok hentries
  have hdistinct : FreigabeMatrix.Distinct ⟨entries⟩ := by
    refine List.Nodup.of_map contextKey ?_
    rw [List.map_map]
    exact hnodup
  refine ⟨⟨fields, raws, require_eq_ok hplain, require_eq_ok hraws, hforall⟩, hdistinct, ?_,
    fun _ hperm ctx => resolveEntry_perm hdistinct hperm ctx⟩
  intro entry hentry
  obtain ⟨raw, hraw⟩ := exists_isEntry hforall hentry
  exact ⟨resolveEntry_context hdistinct hentry, isRoutable_of_isEntry hraw⟩

end ThinkLocal.Approval
