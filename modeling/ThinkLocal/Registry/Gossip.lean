import ThinkLocal.Registry.CapabilityHash
import ThinkLocal.Registry.ImportOrder

/-!
# Gossip

`gossip.ts`: a node sends its own capabilities with their hash, and the peer imports them and answers.
The peer compares the hash with that of its whole registry, so it answers with everything it owns
unless it owns nothing.
-/

namespace ThinkLocal.Registry

open Foundation CapabilityRegistry

/-! ## Requests and answers -/

structure RegistrySyncPayload where
  capability_hash : String
  capabilities : List Json

structure RegistrySyncResponsePayload where
  capability_hash : String
  imported : Nat
  capabilities : List Json

/-- The fields of a capability on the wire. -/
def wireFields : List String :=
  ["skill_id", "version", "description", "agent_id", "health", "trust_level", "updated_at",
    "category", "permissions"]

def Availability.text : Availability → String
  | healthy => "healthy"
  | unhealthy => "unhealthy"

/-- The fields of a record on the wire. -/
def AvailabilityRecord.fields (record : AvailabilityRecord) : Fields :=
  [("availability", .string record.availability.text),
    ("last_checked_at", .string record.last_checked_at),
    ("consecutive_failures", .number record.consecutive_failures)]

/-- `getAvailabilityRecord`, as the fields that it adds. -/
def recordFields (r : CapabilityRegistry) (key : String) : Fields :=
  ((r.availability.get key).map AvailabilityRecord.fields).getD []

/-- The object for a capability in a request or an answer. -/
def payloadEntry (r : CapabilityRegistry) (c : Json) : Option Json :=
  let field (name : String) := Json.propertyOrUndefined (some c) name
  (Json.template (field "agent_id")).bind fun agentId =>
    (Json.template (field "skill_id")).map fun skillId =>
      .object (wireFields.filterMap (fun name => (field name).map fun value => (name, value)) ++
        recordFields r (makeKey agentId skillId))

/-- `exportCapabilities` and the filter by the owner. -/
def ownCapabilities (r : CapabilityRegistry) (owner : String) : Option (List Json) :=
  (Json.objectValues r.capabilities).bind
    (filterThrowing fun c => (c.property "agent_id").map (Json.isString · owner))

/-- The request of `syncWithPeer`. -/
def syncWithPeer (sha256 : String → String) (r : CapabilityRegistry) (senderSpiffeUri : String) :
    Option RegistrySyncPayload := do
  let capabilities ← ownCapabilities r senderSpiffeUri
  let hash ← hashCapabilities sha256 capabilities
  let entries ← capabilities.mapM (payloadEntry r)
  return ⟨hash, entries⟩

/-- The answer of `handleSyncMessage` after the import. -/
def syncAnswer (sha256 : String → String) (r : CapabilityRegistry) (senderSpiffeUri : String)
    (capability_hash : String) (imported : Nat) : Option RegistrySyncResponsePayload := do
  let localHash ← getCapabilityHash sha256 r
  if localHash = capability_hash then return ⟨localHash, imported, []⟩
  else
    let capabilities ← ownCapabilities r senderSpiffeUri
    let hash ← hashCapabilities sha256 capabilities
    let entries ← capabilities.mapM (payloadEntry r)
    return ⟨hash, imported, entries⟩

/-- `handleSyncMessage` for a payload whose objects are the given capabilities. -/
def handleSyncMessage (sha256 : String → String) (dates : Dates) (r : CapabilityRegistry)
    (senderSpiffeUri sender : String) (capability_hash : String) (capabilities : List Capability)
    (now : String) : CapabilityRegistry × Option RegistrySyncResponsePayload :=
  match importPeerCapabilities dates r capabilities sender now with
  | (r, none) => (r, none)
  | (r, some imported) => (r, syncAnswer sha256 r senderSpiffeUri capability_hash imported)

/-! ## Documents of capabilities -/

/-- The document is an object of capabilities. -/
def TypedDoc (doc : Option Json) : Prop :=
  ∃ fields, doc = some (.object fields) ∧ ∀ p ∈ fields, ∃ cap : Capability, p.2 = cap.json

/-- The values of the document. -/
def Holds (doc : Option Json) (caps : List Capability) : Prop :=
  Json.objectValues doc = some (caps.map Capability.json)

variable {doc : Option Json} {caps : List Capability} {r : CapabilityRegistry}

theorem TypedDoc.holds (h : TypedDoc doc) : ∃ caps, Holds doc caps := by
  obtain ⟨fields, rfl, htyped⟩ := h
  have hvalues : ∀ fields : Fields, (∀ p ∈ fields, ∃ cap : Capability, p.2 = cap.json) →
      ∃ caps : List Capability, fields.map Prod.snd = caps.map Capability.json := by
    intro fields htyped
    induction fields with
    | nil => exact ⟨[], rfl⟩
    | cons p rest ih =>
        obtain ⟨cap, hcap⟩ := htyped p List.mem_cons_self
        obtain ⟨caps, hcaps⟩ := ih fun q hq => htyped q (List.mem_cons_of_mem _ hq)
        exact ⟨cap :: caps, by rw [List.map_cons, List.map_cons, hcap, hcaps]⟩
  obtain ⟨caps, hcaps⟩ := hvalues fields htyped
  exact ⟨caps, congrArg some hcaps⟩

theorem ownCapabilities_of_holds (h : Holds r.capabilities caps) (owner : String) :
    ownCapabilities r owner = some ((caps.filter (·.agent_id = owner)).map Capability.json) := by
  rw [ownCapabilities, h, Option.bind_some]
  clear h
  induction caps with
  | nil => rfl
  | cons cap caps ih =>
      rw [List.map_cons, filterThrowing, ih, List.filter_cons]
      have howner : (cap.json.property "agent_id").map (Json.isString · owner) =
          some (decide (cap.agent_id = owner)) := rfl
      rw [howner, Option.bind_some, Option.map_some]
      split_ifs <;> rfl

/-- A capability as it goes over the wire. -/
def Capability.onWire (cap : Capability) (r : CapabilityRegistry) : Capability :=
  { cap with extra := recordFields r cap.key }

theorem payloadEntry_json (r : CapabilityRegistry) (cap : Capability) :
    payloadEntry r cap.json = some (cap.onWire r).json := rfl

theorem mapM_payloadEntry (r : CapabilityRegistry) (caps : List Capability) :
    (caps.map Capability.json).mapM (payloadEntry r) =
      some (caps.map fun cap => (cap.onWire r).json) := by
  induction caps with
  | nil => rfl
  | cons cap caps ih =>
      rw [List.map_cons, List.mapM_cons, payloadEntry_json, ih]
      rfl

/-! ## The import of a request -/

variable {dates : Dates} {incoming : List Capability} {fields : Fields}

/-- What an import writes is a capability without the side fields. -/
theorem entry_eq_json (cap : Capability) :
    cap.entry = ({ cap with extra := stripNonCrdtFields cap.extra } : Capability).json := by
  have hsplit : ∀ extra, ({ cap with extra := extra } : Capability).toFields =
      ({ cap with extra := [] } : Capability).toFields ++ extra := by
    intro extra
    rw [Capability.toFields, Capability.toFields, List.append_nil]
  have hkept : stripNonCrdtFields ({ cap with extra := [] } : Capability).toFields =
      ({ cap with extra := [] } : Capability).toFields := rfl
  rw [Capability.entry, Capability.json, hsplit, hsplit (stripNonCrdtFields cap.extra)]
  unfold stripNonCrdtFields at hkept ⊢
  rw [List.filter_append, hkept]

theorem readable_json (dates : Dates) (cap : Capability) : Readable dates (some cap.json) :=
  fun _ => rfl

theorem mem_typed_of_applyEdits {edits : List Edit} {doc' : Option Json} (h : TypedDoc doc)
    (hedits : ∀ edit ∈ edits, ∃ key cap, edit = .put key (Capability.json cap))
    (happly : applyEdits doc edits = some doc') : TypedDoc doc' := by
  induction edits generalizing doc with
  | nil => exact Option.some.inj happly ▸ h
  | cons edit edits ih =>
      obtain ⟨fields, rfl, htyped⟩ := h
      obtain ⟨key, cap, rfl⟩ := hedits edit List.mem_cons_self
      have hput : TypedDoc (some (.object (insertField fields key cap.json))) := by
        refine ⟨_, rfl, fun p hp => ?_⟩
        rcases mem_insertField hp with rfl | hp
        · exact ⟨cap, rfl⟩
        · exact htyped p hp
      exact ih hput (fun edit hedit => hedits edit (List.mem_cons_of_mem _ hedit)) happly

theorem importEdits_typed {edits : List Edit}
    (h : importEdits dates caps (some (.object fields)) = some edits) :
    ∀ edit ∈ edits, ∃ key cap, edit = .put key (Capability.json cap) := by
  induction caps generalizing fields edits with
  | nil =>
      obtain rfl := Option.some.inj h
      exact fun _ hedit => nomatch hedit
  | cons cap caps ih =>
      rw [importEdits_object] at h
      obtain ⟨replace, -, h⟩ := Option.bind_eq_some_iff.mp h
      split_ifs at h
      · obtain ⟨rest, hrest, rfl⟩ := Option.map_eq_some_iff.mp h
        intro edit hedit
        rcases List.mem_cons.mp hedit with rfl | hedit
        · exact ⟨_, _, congrArg (Edit.put _) (entry_eq_json cap)⟩
        · exact ih hrest edit hedit
      · exact ih h

theorem importPeerCapabilities_eq_none (dates : Dates) (r : CapabilityRegistry)
    (incoming : List Capability) (sender now : String) :
    (importPeerCapabilities dates r incoming sender now).2 = none ↔
      ImportThrows dates (accepted incoming sender) r.capabilities := by
  have hnone := (change_availability { r with
    rejectedForeignWrites := r.rejectedForeignWrites +
      (incoming.filter fun cap => cap.agent_id ≠ sender).length }
    (importEdits dates (accepted incoming sender))).2
  unfold ImportThrows
  rw [← hnone]
  unfold importPeerCapabilities
  dsimp only
  split
  · next r' hchange => exact iff_of_true rfl (congrArg Prod.snd hchange)
  · next r' edits hchange =>
      refine iff_of_false nofun fun h => ?_
      have hsome := h.symm.trans (congrArg Prod.snd hchange)
      cases hsome

/-- An import into a document of capabilities completes and leaves one. -/
theorem import_typed (h : TypedDoc r.capabilities) (dates : Dates) (incoming : List Capability)
    (sender now : String) :
    ∃ imported, (importPeerCapabilities dates r incoming sender now).2 = some imported ∧
      TypedDoc (importPeerCapabilities dates r incoming sender now).1.capabilities := by
  have hdoc := h
  obtain ⟨fields, hfields, htyped⟩ := h
  have hread : BatchReadable dates (accepted incoming sender) fields := by
    intro cap hcap
    cases hlookup : lookup fields cap.key with
    | none => exact nofun
    | some value =>
        obtain ⟨held, hheld⟩ := htyped _ (mem_of_lookup hlookup)
        rw [show value = held.json from hheld]
        exact readable_json dates held
  have hsome : (importPeerCapabilities dates r incoming sender now).2 ≠ none := by
    rw [ne_eq, importPeerCapabilities_eq_none, hfields, importThrows_object]
    exact not_not.mpr hread
  obtain ⟨imported, himported⟩ := Option.ne_none_iff_exists'.mp hsome
  refine ⟨imported, himported, ?_⟩
  obtain ⟨edits, fields', hedits, happly, -⟩ := importEdits_of_readable hread
  rw [importPeerCapabilities_capabilities, importDoc, hfields, hedits, Option.bind_some, happly,
    Option.getD_some]
  exact mem_typed_of_applyEdits (hfields ▸ hdoc) (importEdits_typed hedits) happly

/-! ## What is answered -/

def tupleOf (c : Json) : Option HashTuple :=
  let text (field : String) := Json.template (Json.propertyOrUndefined (some c) field)
  (text "agent_id").bind fun agentId =>
    (text "skill_id").bind fun skillId =>
      (text "version").bind fun version =>
        (text "health").map fun health => ⟨agentId, skillId, version, health⟩

/-- The four fields of each capability of a list. -/
def tuples (capabilities : List Json) : List HashTuple := capabilities.filterMap tupleOf

theorem tuples_json (caps : List Capability) :
    tuples (caps.map Capability.json) = caps.map Capability.tuple := by
  have htuple : tupleOf ∘ Capability.json = fun cap => some cap.tuple := rfl
  rw [tuples, List.filterMap_map, htuple, List.filterMap_eq_map']

/-- The entries of a registry that an agent owns. -/
def ownedBy (r : CapabilityRegistry) (owner : String) : List Json :=
  (ownCapabilities r owner).getD []

/-- Everything that a registry holds. -/
def allEntries (r : CapabilityRegistry) : List Json := (Json.objectValues r.capabilities).getD []

/-- The receiver's entries of the sender are those sent, in the four fields. -/
def InSync (r : CapabilityRegistry) (sender : String) (request : RegistrySyncPayload) : Prop :=
  (tuples (ownedBy r sender)).Perm (tuples request.capabilities)

/-- What is promised of an answer, for the registry after the import. -/
structure Promised (r : CapabilityRegistry) (receiver sender : String) (request : RegistrySyncPayload)
    (answer : RegistrySyncResponsePayload) : Prop where
  empty_iff : answer.capabilities = [] ↔ InSync r sender request
  otherwise : ¬ InSync r sender request →
    (ownedBy r receiver).mapM (payloadEntry r) = some answer.capabilities
  requestOwned : ∀ c ∈ request.capabilities,
    Json.isString (Json.propertyOrUndefined (some c) "agent_id") sender = true
  answerOwned : ∀ c ∈ answer.capabilities,
    Json.isString (Json.propertyOrUndefined (some c) "agent_id") receiver = true

theorem ownedBy_of_holds (h : Holds r.capabilities caps) (owner : String) :
    ownedBy r owner = (caps.filter (·.agent_id = owner)).map Capability.json := by
  rw [ownedBy, ownCapabilities_of_holds h]
  rfl

/-- The capabilities of an agent as they go over the wire. -/
def ownOnWire (r : CapabilityRegistry) (caps : List Capability) (owner : String) : List Capability :=
  (caps.filter (·.agent_id = owner)).map (·.onWire r)

theorem owner_of_ownOnWire {owner : String} {cap : Capability} (h : cap ∈ ownOnWire r caps owner) :
    cap.agent_id = owner := by
  obtain ⟨cap', hcap', rfl⟩ := List.mem_map.mp h
  exact of_decide_eq_true (List.mem_filter.mp hcap').2

/-- The request of a registry of capabilities. -/
theorem syncWithPeer_of_holds (sha256 : String → String) (h : Holds r.capabilities caps)
    (sender : String) :
    syncWithPeer sha256 r sender =
      some ⟨digest sha256 (hashedText ((ownOnWire r caps sender).map Capability.tuple)),
        (ownOnWire r caps sender).map Capability.json⟩ := by
  rw [syncWithPeer, ownCapabilities_of_holds h, ownOnWire]
  dsimp only [Option.bind_eq_bind, Option.bind_some]
  rw [hashCapabilities_json, mapM_payloadEntry, List.map_map, List.map_map]
  rfl

/-- The answer of a registry of capabilities. -/
theorem syncAnswer_of_holds (sha256 : String → String) (h : Holds r.capabilities caps)
    (receiver hash : String) (imported : Nat) :
    syncAnswer sha256 r receiver hash imported =
      some (if digest sha256 (hashedText (caps.map Capability.tuple)) = hash then
          ⟨digest sha256 (hashedText (caps.map Capability.tuple)), imported, []⟩
        else
          ⟨digest sha256 (hashedText ((caps.filter (·.agent_id = receiver)).map Capability.tuple)),
            imported, (caps.filter (·.agent_id = receiver)).map fun cap => (cap.onWire r).json⟩) := by
  rw [syncAnswer, getCapabilityHash, h]
  dsimp only [Option.bind_eq_bind, Option.bind_some]
  rw [hashCapabilities_json, ownCapabilities_of_holds h]
  dsimp only [Option.bind_some]
  rw [hashCapabilities_json, mapM_payloadEntry]
  split_ifs <;> rfl

theorem isString_json (cap : Capability) (owner : String) :
    Json.isString (Json.propertyOrUndefined (some cap.json) "agent_id") owner =
      decide (cap.agent_id = owner) := rfl

theorem filter_of_owner {owner other : String} (h : ∀ cap ∈ caps, cap.agent_id = owner)
    (hne : other ≠ owner) : caps.filter (·.agent_id = other) = [] := by
  rw [List.filter_eq_nil_iff]
  intro cap hcap
  rw [h cap hcap]
  simpa using Ne.symm hne

/-- Capabilities with the text of their part of an owner all belong to it. -/
theorem owner_of_hashedText {owner : String}
    (h : hashedText ((caps.filter (·.agent_id = owner)).map Capability.tuple) =
      hashedText (caps.map Capability.tuple)) : ∀ cap ∈ caps, cap.agent_id = owner := by
  by_contra hforeign
  push Not at hforeign
  obtain ⟨cap, hcap, howner⟩ := hforeign
  refine hashedText_ne_of_sublist (List.filter_sublist.map _) ?_ h
  rw [List.length_map, List.length_map]
  exact List.length_filter_lt_length_iff_exists.mpr ⟨cap, hcap, by simpa using howner⟩

section Answer

variable {sha256 : String → String} {sender receiver : String} {own : List Capability}
variable {imported : Nat} {answer : RegistrySyncResponsePayload} {request : RegistrySyncPayload}

theorem inSync_iff (hafter : Holds r.capabilities caps)
    (hrequest : request.capabilities = own.map Capability.json) :
    InSync r sender request ↔
      ((caps.filter (·.agent_id = sender)).map Capability.tuple).Perm (own.map Capability.tuple) := by
  rw [InSync, ownedBy_of_holds hafter, hrequest, tuples_json, tuples_json]

theorem owned_of_request (hown : ∀ cap ∈ own, cap.agent_id = sender)
    (hrequest : request.capabilities = own.map Capability.json) (c : Json)
    (hc : c ∈ request.capabilities) :
    Json.isString (Json.propertyOrUndefined (some c) "agent_id") sender = true := by
  rw [hrequest] at hc
  obtain ⟨cap, hcap, rfl⟩ := List.mem_map.mp hc
  rw [isString_json]
  exact decide_eq_true (hown cap hcap)

/-- An empty answer promises that the receiver is in sync. -/
theorem promised_of_empty (hown : ∀ cap ∈ own, cap.agent_id = sender)
    (hrequest : request.capabilities = own.map Capability.json) (hempty : answer.capabilities = []) :
    Promised r receiver sender request answer ↔ InSync r sender request := by
  refine ⟨fun h => h.empty_iff.mp hempty, fun h => ?_⟩
  exact
    { empty_iff := iff_of_true hempty h
      otherwise := fun hnot => absurd h hnot
      requestOwned := owned_of_request hown hrequest
      answerOwned := fun c hc => by
        rw [hempty] at hc
        cases hc }

/-- An answer with what the receiver owns promises that this is nothing just when it is in sync. -/
theorem promised_of_own (hafter : Holds r.capabilities caps)
    (hown : ∀ cap ∈ own, cap.agent_id = sender)
    (hrequest : request.capabilities = own.map Capability.json)
    (hanswer : answer.capabilities =
      (caps.filter (·.agent_id = receiver)).map fun cap => (cap.onWire r).json) :
    Promised r receiver sender request answer ↔
      (ownedBy r receiver = [] ↔ InSync r sender request) := by
  have hempty : answer.capabilities = [] ↔ ownedBy r receiver = [] := by
    rw [hanswer, ownedBy_of_holds hafter, List.map_eq_nil_iff, List.map_eq_nil_iff]
  refine ⟨fun h => hempty.symm.trans h.empty_iff, fun h => ?_⟩
  exact
    { empty_iff := hempty.trans h
      otherwise := fun _ => by rw [ownedBy_of_holds hafter, mapM_payloadEntry, hanswer]
      requestOwned := owned_of_request hown hrequest
      answerOwned := fun c hc => by
        rw [hanswer] at hc
        obtain ⟨cap, hcap, rfl⟩ := List.mem_map.mp hc
        exact (List.mem_filter.mp hcap).2 }

/-- With one text for both, the receiver is in sync exactly if that text is not ambiguous, and then all
that it holds belongs to the sender. -/
theorem inSync_of_text_eq (hafter : Holds r.capabilities caps)
    (hown : ∀ cap ∈ own, cap.agent_id = sender) (hne : receiver ≠ sender)
    (hrequest : request.capabilities = own.map Capability.json)
    (htext : hashedText (caps.map Capability.tuple) = hashedText (own.map Capability.tuple)) :
    InSync r sender request ↔
      ¬ Ambiguous (caps.map Capability.tuple) (own.map Capability.tuple) ∧
        (ownedBy r receiver = [] ↔ InSync r sender request) := by
  have hall (howners : ∀ cap ∈ caps, cap.agent_id = sender) :
      caps.filter (·.agent_id = sender) = caps :=
    List.filter_eq_self.mpr fun cap hcap => decide_eq_true (howners cap hcap)
  rcases hashedText_eq_iff.mp htext with hperm | hambiguous
  · have howners : ∀ cap ∈ caps, cap.agent_id = sender := by
      intro cap hcap
      obtain ⟨cap', hcap', htuple⟩ :=
        List.mem_map.mp (hperm.mem_iff.mp (List.mem_map_of_mem hcap))
      rw [← hown cap' hcap']
      exact (congrArg HashTuple.agent_id htuple).symm
    have hinSync : InSync r sender request := by
      rw [inSync_iff hafter hrequest, hall howners]
      exact hperm
    have hnone : ownedBy r receiver = [] := by
      rw [ownedBy_of_holds hafter, filter_of_owner howners hne]
      rfl
    exact iff_of_true hinSync ⟨fun h => h.2 hperm, iff_of_true hnone hinSync⟩
  · -- a longer text cannot be that of the part of the sender
    refine iff_of_false (fun hinSync => ?_) fun h => h.1 hambiguous
    have hpart := hashedText_of_perm ((inSync_iff hafter hrequest).mp hinSync)
    have howners := owner_of_hashedText (hpart.trans htext.symm)
    rw [inSync_iff hafter hrequest, hall howners] at hinSync
    exact hambiguous.2 hinSync

/-- The promise of an answer is kept exactly if the texts are not ambiguous and the receiver owns
nothing just when it is in sync. -/
theorem promised_iff (hafter : Holds r.capabilities caps) (hown : ∀ cap ∈ own, cap.agent_id = sender)
    (hne : receiver ≠ sender)
    (hrequest : request =
      ⟨digest sha256 (hashedText (own.map Capability.tuple)), own.map Capability.json⟩)
    (hanswer : syncAnswer sha256 r receiver request.capability_hash imported = some answer)
    (hsha : NoCollision sha256 (hashedText (caps.map Capability.tuple))
      (hashedText (own.map Capability.tuple))) :
    Promised r receiver sender request answer ↔
      ¬ Ambiguous (caps.map Capability.tuple) (own.map Capability.tuple) ∧
        (ownedBy r receiver = [] ↔ InSync r sender request) := by
  have hcapabilities : request.capabilities = own.map Capability.json := by rw [hrequest]
  rw [syncAnswer_of_holds sha256 hafter, Option.some.injEq, hrequest] at hanswer
  dsimp only at hanswer
  by_cases htext : hashedText (caps.map Capability.tuple) = hashedText (own.map Capability.tuple)
  · rw [htext, if_pos rfl] at hanswer
    rw [promised_of_empty hown hcapabilities (by rw [← hanswer])]
    exact inSync_of_text_eq hafter hown hne hcapabilities htext
  · rw [if_neg fun h => htext (hsha h)] at hanswer
    rw [promised_of_own hafter hown hcapabilities (by rw [← hanswer])]
    exact (and_iff_right fun h => htext h.1).symm

end Answer

/-- Of lists without delimiters in their texts the hash tells the tuples, and an answer keeps what is
promised exactly if the receiver owns nothing just when it is in sync.  Of any lists the hash does so
exactly if their texts are not ambiguous. -/
theorem gossip_answer_iff (sha256 : String → String) (dates : Dates) :
    (∀ caps caps' : List Capability, (∀ c ∈ caps, c.tuple.Plain) → (∀ c ∈ caps', c.tuple.Plain) →
      NoCollision sha256 (hashedText (caps.map Capability.tuple))
        (hashedText (caps'.map Capability.tuple)) →
      (hashCapabilities sha256 (caps.map Capability.json) =
          hashCapabilities sha256 (caps'.map Capability.json) ↔
        (caps.map Capability.tuple).Perm (caps'.map Capability.tuple))) ∧
    (∀ caps caps' : List Capability,
      NoCollision sha256 (hashedText (caps.map Capability.tuple))
        (hashedText (caps'.map Capability.tuple)) →
      ((hashCapabilities sha256 (caps.map Capability.json) =
          hashCapabilities sha256 (caps'.map Capability.json) ↔
        (caps.map Capability.tuple).Perm (caps'.map Capability.tuple)) ↔
        ¬ Ambiguous (caps.map Capability.tuple) (caps'.map Capability.tuple))) ∧
    (∀ tuples tuples' : List HashTuple, (∀ t ∈ tuples, t.Plain) → (∀ t ∈ tuples', t.Plain) →
      ¬ Ambiguous tuples tuples') ∧
    ∀ (sending receiving : CapabilityRegistry) (receiver sender now : String), receiver ≠ sender →
      TypedDoc sending.capabilities → TypedDoc receiving.capabilities →
      ∃ (request : RegistrySyncPayload) (incoming : List Capability),
        syncWithPeer sha256 sending sender = some request ∧
        request.capabilities = incoming.map Capability.json ∧
        ∃ after answer, handleSyncMessage sha256 dates receiving receiver sender
            request.capability_hash incoming now = (after, some answer) ∧
          (NoCollision sha256 (hashedText (tuples (allEntries after)))
              (hashedText (tuples request.capabilities)) →
            ((∀ t ∈ tuples (allEntries after), t.Plain) →
              (∀ t ∈ tuples request.capabilities, t.Plain) →
              (Promised after receiver sender request answer ↔
                (ownedBy after receiver = [] ↔ InSync after sender request))) ∧
            (Promised after receiver sender request answer ↔
              ¬ Ambiguous (tuples (allEntries after)) (tuples request.capabilities) ∧
                (ownedBy after receiver = [] ↔ InSync after sender request))) := by
  refine ⟨fun caps caps' hplain hplain' hsha => ?_, fun caps caps' hsha => hashCapabilities_tells_iff hsha,
    fun _ _ => not_ambiguous_of_plain, fun sending receiving receiver sender now hne hsend hreceive => ?_⟩
  · exact (hashCapabilities_tells_iff hsha).mpr
      (not_ambiguous_of_plain (List.forall_mem_map.mpr hplain) (List.forall_mem_map.mpr hplain'))
  obtain ⟨sent, hsent⟩ := hsend.holds
  have hown : ∀ cap ∈ ownOnWire sending sent sender, cap.agent_id = sender :=
    fun _ => owner_of_ownOnWire
  refine ⟨_, _, syncWithPeer_of_holds sha256 hsent sender, rfl, ?_⟩
  -- what the request says is all that is used of the sender from here on
  generalize ownOnWire sending sent sender = own at hown
  obtain ⟨imported, himported, htyped⟩ := import_typed hreceive dates own sender now
  generalize hafter : importPeerCapabilities dates receiving own sender now = imports at *
  obtain ⟨after, result⟩ := imports
  obtain rfl : result = some imported := himported
  obtain ⟨caps, hcaps⟩ := htyped.holds
  have hanswered : ∃ answer, syncAnswer sha256 after receiver
      (digest sha256 (hashedText (own.map Capability.tuple))) imported = some answer :=
    ⟨_, syncAnswer_of_holds sha256 hcaps _ _ _⟩
  obtain ⟨answer, hanswer⟩ := hanswered
  refine ⟨after, answer, ?_, ?_⟩
  · rw [handleSyncMessage, hafter]
    exact congrArg (Prod.mk after) hanswer
  · -- the hash of the answer is over the whole registry of the receiver
    have hall : tuples (allEntries after) = caps.map Capability.tuple := by
      rw [allEntries, hcaps, Option.getD_some, tuples_json]
    rw [hall, tuples_json]
    intro hsha
    have hiff := promised_iff hcaps hown hne rfl hanswer hsha
    refine ⟨fun hplain hplain' => hiff.trans (and_iff_right ?_), hiff⟩
    exact not_ambiguous_of_plain hplain hplain'

/-- A registry with one capability. -/
def oneCapability (agentId skillId version : String) : CapabilityRegistry where
  capabilities := some (.object [(makeKey agentId skillId,
    ({ unstampedCapability agentId skillId "1" with version := version, extra := [] } :
      Capability).json)])
  availability := .empty
  rejectedForeignWrites := 0

/-- A digest that tells texts by their length. -/
def lengthDigest (text : String) : String := String.singleton (Char.ofNat text.toList.length)

/-- A version with a colon has the line of another skill, and a receiver that is in sync answers with
its own capability. -/
theorem gossip_answers_in_sync :
    (¬ ∀ caps caps' : List Capability,
      (hashCapabilities lengthDigest (caps.map Capability.json) =
          hashCapabilities lengthDigest (caps'.map Capability.json) ↔
        (caps.map Capability.tuple).Perm (caps'.map Capability.tuple))) ∧
    ∃ request incoming after answer,
      syncWithPeer lengthDigest (oneCapability "A" "s" "1") "A" = some request ∧
      request.capabilities = incoming.map Capability.json ∧
      handleSyncMessage lengthDigest twoDates (oneCapability "B" "t" "1") "B" "A"
        request.capability_hash incoming "2" = (after, some answer) ∧
      InSync after "A" request ∧ ¬ Promised after "B" "A" request answer := by
  constructor
  · intro hall
    let first : Capability :=
      { unstampedCapability "A" "s" "1" with version := "1:2" }
    let second : Capability :=
      { unstampedCapability "A" "s:1" "1" with version := "2" }
    have hline : first.tuple.line = second.tuple.line := by decide
    have hsame := (hall [first] [second]).mp (by
      rw [hashCapabilities_json, hashCapabilities_json, hashedText, hashedText, List.map_singleton,
        List.map_singleton, List.map_singleton, List.map_singleton, hline])
    exact absurd hsame (by decide)
  · -- the entry of the sender, and what the receiver holds after the import
    let sent : Capability := { unstampedCapability "A" "s" "1" with version := "1", extra := [] }
    let held : Capability := { unstampedCapability "B" "t" "1" with version := "1", extra := [] }
    let after : CapabilityRegistry :=
      { oneCapability "B" "t" "1" with
        capabilities := some (.object [("B::t", held.json), ("A::s", sent.json)]) }
    have hsent : Holds (oneCapability "A" "s" "1").capabilities [sent] := rfl
    have hafter : Holds after.capabilities [held, sent] := rfl
    have himport : importPeerCapabilities twoDates (oneCapability "B" "t" "1") [sent] "A" "2" =
        (after, some 1) := rfl
    have hlonger : digest lengthDigest (hashedText [held.tuple, sent.tuple]) ≠
        digest lengthDigest (hashedText [sent.tuple]) := by
      have hlength := length_hashedText [held.tuple, sent.tuple]
      have hlength' := length_hashedText [sent.tuple]
      unfold digest lengthDigest
      rw [hlength, hlength']
      decide
    have hanswer := syncAnswer_of_holds lengthDigest hafter "B"
      (digest lengthDigest (hashedText [sent.tuple])) 1
    have hdifferent : ¬ digest lengthDigest (hashedText ([held, sent].map Capability.tuple)) =
        digest lengthDigest (hashedText [sent.tuple]) := hlonger
    rw [if_neg hdifferent] at hanswer
    have hanswered : ∃ answer, syncAnswer lengthDigest after "B"
        (digest lengthDigest (hashedText [sent.tuple])) 1 = some answer ∧ answer.capabilities ≠ [] :=
      ⟨_, hanswer, List.cons_ne_nil _ _⟩
    obtain ⟨answer, hanswer, hfull⟩ := hanswered
    have hrequest := syncWithPeer_of_holds lengthDigest hsent "A"
    have hinSync : InSync after "A" ⟨digest lengthDigest (hashedText [sent.tuple]), [sent.json]⟩ := by
      rw [InSync, ownedBy_of_holds hafter, tuples_json]
      decide
    refine ⟨_, [sent], after, answer, hrequest, rfl, ?_, hinSync, fun h => ?_⟩
    · rw [handleSyncMessage, himport]
      exact congrArg (Prod.mk after) hanswer
    · exact hfull (h.empty_iff.mpr hinSync)

end ThinkLocal.Registry
