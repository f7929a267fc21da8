import ThinkLocal.Foundation.InsertionMap
import ThinkLocal.Registry.Json

/-!
# The capability registry

`CapabilityRegistry` of `registry.ts` over the JSON view of its document.  The
registry reads and writes only `doc.capabilities`, which is whatever the peers
merged there, so it is an `Option Json`.

A method runs its writes in `Automerge.change`: the callback reads the value and
performs `Edit`s on it, and if it throws, the document is what it was before.
Every method returns the registry it leaves and its result, `none` if it threw.
-/

namespace ThinkLocal.Registry

open Foundation

/-! ## Capabilities -/

inductive CapabilityHealth
  | healthy
  | degraded
  | offline
  deriving DecidableEq, Repr

def CapabilityHealth.text : CapabilityHealth → String
  | .healthy => "healthy"
  | .degraded => "degraded"
  | .offline => "offline"

structure Capability where
  skill_id : String
  version : String
  description : String
  agent_id : String
  health : CapabilityHealth
  trust_level : Nat
  updated_at : String
  category : String
  permissions : List String
  /-- Further own properties that the object has at run time. -/
  extra : Fields := []

/-- The own properties of a capability object. -/
def Capability.toFields (cap : Capability) : Fields :=
  [("skill_id", .string cap.skill_id), ("version", .string cap.version),
    ("description", .string cap.description), ("agent_id", .string cap.agent_id),
    ("health", .string cap.health.text), ("trust_level", .number (toString cap.trust_level)),
    ("updated_at", .string cap.updated_at), ("category", .string cap.category),
    ("permissions", .array (cap.permissions.map .string))] ++ cap.extra

/-- The fields that must not be in the document. -/
def nonCrdtFields : List String :=
  ["availability", "last_checked_at", "consecutive_failures", "provenance"]

/-- `stripNonCrdtFields`. -/
def stripNonCrdtFields (fields : Fields) : Fields :=
  fields.filter fun p => p.1 ∉ nonCrdtFields

theorem lookup_stripNonCrdtFields (fields : Fields) {field : String}
    (hfield : field ∉ nonCrdtFields) :
    lookup (stripNonCrdtFields fields) field = lookup fields field := by
  induction fields with
  | nil => rfl
  | cons p rest ih =>
      obtain ⟨k, v⟩ := p
      unfold stripNonCrdtFields at ih ⊢
      rw [List.filter_cons]
      by_cases hk : k ∈ nonCrdtFields
      · have hne : k ≠ field := fun heq => hfield (heq ▸ hk)
        simp only [hk, not_true_eq_false, decide_false, Bool.false_eq_true, if_false, lookup,
          if_neg hne]
        exact ih
      · simp only [hk, not_false_eq_true, decide_true, if_true, lookup]
        rw [ih]

def makeKey (agentId skillId : String) : String := agentId ++ "::" ++ skillId

/-! ## Edits of the document -/

/-- A write to the container `d.capabilities`. -/
inductive Edit
  | put (key : String) (value : Json)
  | delete (key : String)
  /-- `d.capabilities[key].field = value`. -/
  | assign (key field : String) (value : Json)

/-- A write to an entry; throws unless the entry is an object. -/
def assignField : Option Json → String → Json → Option Json
  | some (.object entry), field, value => some (.object (insertField entry field value))
  | _, _, _ => none

/-- What a write makes of the container.  A list takes no string key, a primitive
value takes no property at all, and deleting from one does nothing. -/
def applyEdit : Json → Edit → Option Json
  | .null, _ => none
  | .object fields, .put key value => some (.object (insertField fields key value))
  | .object fields, .delete key => some (.object (eraseField fields key))
  | .object fields, .assign key field value =>
      (assignField (lookup fields key) field value).map fun entry =>
        .object (insertField fields key entry)
  | .array items, .delete key => key.toNat?.map fun i => .array (items.eraseIdx i)
  | .array items, .assign key field value =>
      key.toNat?.bind fun i =>
        (assignField items[i]? field value).map fun entry => .array (items.set i entry)
  | value, .delete _ => some value
  | _, _ => none

/-- The writes of one callback in order. -/
def applyEdits : Option Json → List Edit → Option (Option Json)
  | capabilities, [] => some capabilities
  | none, _ :: _ => none
  | some value, edit :: rest =>
      (applyEdit value edit).bind fun value' => applyEdits (some value') rest

/-! ## The registry -/

inductive Availability
  | healthy
  | unhealthy
  deriving DecidableEq, Repr

structure AvailabilityRecord where
  availability : Availability
  last_checked_at : String
  /-- A number, by its text. -/
  consecutive_failures : String
  deriving DecidableEq, Repr

structure CapabilityRegistry where
  /-- `doc.capabilities`. -/
  capabilities : Option Json
  availability : InsertionMap String AvailabilityRecord
  rejectedForeignWrites : Nat

/-- The registry over the genesis document. -/
def CapabilityRegistry.fresh : CapabilityRegistry where
  capabilities := some (.object [])
  availability := .empty
  rejectedForeignWrites := 0

namespace CapabilityRegistry

/-- `Automerge.change` with a callback that performs the edits it computes. -/
def change (r : CapabilityRegistry) (edits : Option Json → Option (List Edit)) :
    CapabilityRegistry × Option (List Edit) :=
  match (edits r.capabilities).bind fun es =>
      (applyEdits r.capabilities es).map fun capabilities => (capabilities, es) with
  | some (capabilities, es) => ({ r with capabilities := capabilities }, some es)
  | none => (r, none)

/-- A change that goes through performs the edits of its callback. -/
theorem change_eq_some {r : CapabilityRegistry} {edits : Option Json → Option (List Edit)}
    {es : List Edit} (h : (r.change edits).2 = some es) :
    edits r.capabilities = some es ∧
      applyEdits r.capabilities es = some (r.change edits).1.capabilities := by
  cases hedits : edits r.capabilities with
  | none => simp [change, hedits] at h
  | some es' =>
      cases happly : applyEdits r.capabilities es' with
      | none => simp [change, hedits, happly] at h
      | some capabilities =>
          simp only [change, hedits, happly, Option.bind_some, Option.map_some,
            Option.some.injEq] at h ⊢
          exact ⟨h, h ▸ happly⟩

/-- A change that throws leaves the registry as it was. -/
theorem change_eq_none {r : CapabilityRegistry} {edits : Option Json → Option (List Edit)}
    (h : (r.change edits).2 = none) : (r.change edits).1 = r := by
  unfold change at h ⊢
  split at h
  · cases h
  · rfl

def getAvailability (r : CapabilityRegistry) (key : String) : Availability :=
  ((r.availability.get key).map (·.availability)).getD .healthy

/-- `setAvailability` and whether the availability changed. -/
def setAvailability (r : CapabilityRegistry) (agentId skillId : String)
    (record : AvailabilityRecord) : CapabilityRegistry × Bool :=
  let key := makeKey agentId skillId
  ({ r with availability := r.availability.set key record },
    (r.availability.get key).map (·.availability) ≠ some record.availability)

/-- The value that `register` writes. -/
def registered (cap : Capability) (now : String) : Json :=
  .object (insertField (stripNonCrdtFields cap.toFields) "updated_at" (.string now))

def register (r : CapabilityRegistry) (cap : Capability) (now : String) :
    CapabilityRegistry × Option Unit :=
  let changed := r.change fun _ =>
    some [.put (makeKey cap.agent_id cap.skill_id) (registered cap now)]
  (changed.1, changed.2.map fun _ => ())

def unregister (r : CapabilityRegistry) (agentId skillId : String) :
    CapabilityRegistry × Option Unit :=
  let key := makeKey agentId skillId
  match r.change fun _ => some [.delete key] with
  | (r, some _) => ({ r with availability := r.availability.delete key }, some ())
  | (r, none) => (r, none)

/-- The writes of `markAgentOffline`, entry by entry; `cap.agent_id` throws on `null`. -/
def offlineEdits (agentId now : String) : Fields → Option (List Edit)
  | [] => some []
  | (key, cap) :: rest =>
      (cap.property "agent_id").bind fun owner =>
        (offlineEdits agentId now rest).map fun edits =>
          if Json.isString owner agentId then
            .assign key "health" (.string "offline") ::
              .assign key "updated_at" (.string now) :: edits
          else edits

/-- The callback of `markAgentOffline`. -/
def markOfflineEdits (agentId now : String) (capabilities : Option Json) : Option (List Edit) :=
  (Json.objectEntries capabilities).bind (offlineEdits agentId now)

def markAgentOffline (r : CapabilityRegistry) (agentId now : String) :
    CapabilityRegistry × Option Unit :=
  let changed := r.change (markOfflineEdits agentId now)
  (changed.1, changed.2.map fun _ => ())

/-- The test of `findBySkill` on one value. -/
def isRoutable (r : CapabilityRegistry) (skillId : String) (c : Json) : Option Bool :=
  (c.property "skill_id").bind fun skill =>
    let health := Json.propertyOrUndefined (some c) "health"
    if Json.isString skill skillId = true ∧ Json.isString health "offline" = false then
      (Json.template (Json.propertyOrUndefined (some c) "agent_id")).map fun agentId =>
        decide (r.getAvailability (makeKey agentId skillId) ≠ .unhealthy)
    else some false

/-- `values.filter(test)` for a test that may throw. -/
def filterThrowing (test : Json → Option Bool) : List Json → Option (List Json)
  | [] => some []
  | c :: rest =>
      (test c).bind fun keep =>
        (filterThrowing test rest).map fun kept => if keep then c :: kept else kept

def findBySkill (r : CapabilityRegistry) (skillId : String) : Option (List Json) :=
  (Json.objectValues r.capabilities).bind (filterThrowing (r.isRoutable skillId))

/-- The line of one value in the hash. -/
def hashLine (c : Json) : Option String :=
  (c.property "agent_id").bind fun agentId =>
    let text (field : String) := Json.template (Json.propertyOrUndefined (some c) field)
    (Json.template agentId).bind fun agentId =>
      (text "skill_id").bind fun skillId =>
        (text "version").bind fun version =>
          (text "health").map fun health =>
            agentId ++ "::" ++ skillId ++ ":" ++ version ++ ":" ++ health

def hashLines : List Json → Option (List String)
  | [] => some []
  | c :: rest => (hashLine c).bind fun line => (hashLines rest).map fun lines => line :: lines

/-- The UTF-16 code units of a text, by which `sort` compares. -/
def codeUnits (text : String) : List Nat :=
  text.toList.flatMap fun c =>
    if c.toNat < 0x10000 then [c.toNat]
    else [0xD800 + (c.toNat - 0x10000) / 0x400, 0xDC00 + (c.toNat - 0x10000) % 0x400]

/-- `hashCapabilities`; `sha256` gives the hexadecimal digest. -/
def hashCapabilities (sha256 : String → String) (capabilities : List Json) : Option String :=
  (hashLines capabilities).map fun lines =>
    let sorted := lines.mergeSort fun a b => decide (codeUnits a ≤ codeUnits b)
    String.ofList ((sha256 ("|".intercalate sorted)).toList.take 16)

def getCapabilityHash (sha256 : String → String) (r : CapabilityRegistry) : Option String :=
  (Json.objectValues r.capabilities).bind (hashCapabilities sha256)

/-! ## Synchronisation -/

/-- The deletions of `normalizeCrdtSchema` in one value; `in` throws on a primitive value. -/
def normalizeEntry : Json → Option Json
  | .object fields => some (.object (stripNonCrdtFields fields))
  | .array items => some (.array items)
  | _ => none

def normalizeFields : Fields → Option Fields
  | [] => some []
  | (key, cap) :: rest =>
      (normalizeEntry cap).bind fun cap' =>
        (normalizeFields rest).map fun rest' => (key, cap') :: rest'

def normalizeItems : List Json → Option (List Json)
  | [] => some []
  | cap :: rest =>
      (normalizeEntry cap).bind fun cap' =>
        (normalizeItems rest).map fun rest' => cap' :: rest'

/-- `normalizeCrdtSchema`: the value of `d.capabilities` after it, unless it throws. -/
def normalizeCrdtSchema : Option Json → Option (Option Json)
  | none => none
  | some .null => none
  | some (.object fields) => (normalizeFields fields).map fun fields' => some (.object fields')
  | some (.array items) => (normalizeItems items).map fun items' => some (.array items')
  | some (.string text) => if text = "" then some (some (.string text)) else none
  | some value => some (some value)

/-- `receiveSyncMessage` once Automerge merged the message: `merged` is
`newDoc.capabilities`. -/
def receiveSyncMessage (r : CapabilityRegistry) (merged : Option Json) :
    CapabilityRegistry × Option Unit :=
  let received := { r with capabilities := merged }
  match normalizeCrdtSchema merged with
  | some normalized => ({ received with capabilities := normalized }, some ())
  | none => (received, none)

/-- `Number.isFinite(n) && n >= 0` by the text of the number. -/
def finiteNonnegative (text : String) : Bool :=
  text ≠ "NaN" ∧ text ≠ "Infinity" ∧ ¬ "-".toList <+: text.toList

/-- The availability that an incoming capability carries, if it is one of the two values. -/
def incomingAvailability (cap : Capability) (now : String) : Option AvailabilityRecord :=
  let availability : Option Availability :=
    match lookup cap.extra "availability" with
    | some (.string "healthy") => some .healthy
    | some (.string "unhealthy") => some .unhealthy
    | _ => none
  availability.map fun availability =>
    { availability := availability
      last_checked_at :=
        match lookup cap.extra "last_checked_at" with
        | some (.string text) => text
        | _ => now
      consecutive_failures :=
        match lookup cap.extra "consecutive_failures" with
        | some (.number text) =>
            if finiteNonnegative text then text
            else if availability = .unhealthy then "1" else "0"
        | _ => if availability = .unhealthy then "1" else "0" }

/-- Is the entry under the key missing or older than the incoming capability? -/
def replaces (dates : Dates) (cap : Capability) (existing : Option Json) : Option Bool :=
  if Json.truthy existing then
    (dates.ofValue (Json.propertyOrUndefined existing "updated_at")).map
      (laterThan (dates.ofText cap.updated_at))
  else some true

/-- The writes of `importPeerCapabilities`, each on the container that the earlier ones left. -/
def importEdits (dates : Dates) : List Capability → Option Json → Option (List Edit)
  | [], _ => some []
  | _ :: _, none => none
  | _ :: _, some .null => none
  | cap :: rest, some value =>
      let key := makeKey cap.agent_id cap.skill_id
      (replaces dates cap (value.element key)).bind fun replace =>
        if replace then
          let edit : Edit := .put key (.object (stripNonCrdtFields cap.toFields))
          (applyEdit value edit).bind fun value' =>
            (importEdits dates rest (some value')).map fun edits => edit :: edits
        else importEdits dates rest (some value)

/-- `importPeerCapabilities` and the number of imported capabilities. -/
def importPeerCapabilities (dates : Dates) (r : CapabilityRegistry) (incoming : List Capability)
    (writer now : String) : CapabilityRegistry × Option Nat :=
  let accepted := incoming.filter fun cap => cap.agent_id = writer
  let r := { r with
    rejectedForeignWrites :=
      r.rejectedForeignWrites + (incoming.filter fun (cap : Capability) => cap.agent_id ≠ writer).length }
  match r.change (importEdits dates accepted) with
  | (r, none) => (r, none)
  | (r, some edits) =>
      (accepted.foldl (fun (r : CapabilityRegistry) (cap : Capability) =>
        match incomingAvailability cap now with
        | none => r
        | some record => (r.setAvailability cap.agent_id cap.skill_id record).1) r,
        some edits.length)

/-- The deletions of `removePeerCapabilities`, each on the container that the
earlier ones left. -/
def removeEdits (agentId : String) : List String → Json → List Edit
  | [], _ => []
  | key :: rest, value =>
      if Json.isString (Json.propertyOrUndefined (value.element key) "agent_id") agentId then
        .delete key :: removeEdits agentId rest ((applyEdit value (.delete key)).getD value)
      else removeEdits agentId rest value

/-- The callback of `removePeerCapabilities`. -/
def removePeerEdits (agentId : String) (capabilities : Option Json) : Option (List Edit) :=
  (Json.objectKeys capabilities).bind fun keys =>
    capabilities.map fun value => removeEdits agentId keys value

/-- `removePeerCapabilities` and the number of removed capabilities. -/
def removePeerCapabilities (r : CapabilityRegistry) (agentId : String) :
    CapabilityRegistry × Option Nat :=
  match r.change (removePeerEdits agentId) with
  | (r, none) => (r, none)
  | (r, some edits) =>
      let stale := r.availability.keys.filter fun key => (makeKey agentId "").toList <+: key.toList
      ({ r with availability := stale.foldl (fun m key => m.delete key) r.availability },
        some edits.length)

/-- The writes of `markStaleCapabilities`, key by key. -/
def staleEdits (dates : Dates) (maxAgeMs now : Int) (value : Json) :
    List String → Option (List Edit)
  | [] => some []
  | key :: rest =>
      let cap := value.element key
      let health := Json.propertyOrUndefined cap "health"
      if Json.truthy cap = false ∨ Json.isString health "offline" = true then
        staleEdits dates maxAgeMs now value rest
      else
        (dates.ofValue (Json.propertyOrUndefined cap "updated_at")).bind fun updated =>
          (staleEdits dates maxAgeMs now value rest).map fun edits =>
            if updated.any (fun t => maxAgeMs < now - t) ∧ Json.isString health "healthy" then
              .assign key "health" (.string "degraded") :: edits
            else edits

/-- The callback of `markStaleCapabilities`. -/
def markStaleEdits (dates : Dates) (maxAgeMs now : Int) (capabilities : Option Json) :
    Option (List Edit) :=
  (Json.objectKeys capabilities).bind fun keys =>
    capabilities.bind fun value => staleEdits dates maxAgeMs now value keys

/-- `markStaleCapabilities` and the number of marked capabilities. -/
def markStaleCapabilities (dates : Dates) (r : CapabilityRegistry) (maxAgeMs now : Int) :
    CapabilityRegistry × Option Nat :=
  let changed := r.change (markStaleEdits dates maxAgeMs now)
  (changed.1, changed.2.map List.length)

end CapabilityRegistry

end ThinkLocal.Registry
