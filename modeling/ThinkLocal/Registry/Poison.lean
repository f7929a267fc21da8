import ThinkLocal.Registry.CapabilityRegistry

/-!
# What a peer can merge into the document

A sync message may merge any JSON-like value under any key.  `receiveSyncMessage`
assigns the merged document before it normalises it, so a value on which the
normalisation throws stays, and every later call throws on it again; and a value
that passes the normalisation may still throw in the readers.

`Benign` says which merged documents do no harm: the capabilities are a map of
objects or lists whose hashed fields have a text, and under the keys that
an import can address the `updated_at` has a date.  For these, and only for these,
the message is received, every later run of operations completes and no
capability object ever carries a field that belongs outside the document
(`unpoisoned_iff_benign`).  A single `null` entry is enough to break it
(`poisoned_by_null`).
-/

namespace ThinkLocal.Registry

open CapabilityRegistry

/-! ## Operations after a message -/

/-- What the registry uses that is not part of it. -/
structure Runtime where
  dates : Dates
  sha256 : String → String

/-- What a well-behaved peer writes: it registers or unregisters a capability. -/
inductive PeerChange
  | register (cap : Capability) (now : String)
  | unregister (agentId skillId : String)

def PeerChange.edit : PeerChange → Edit
  | .register cap now => .put (makeKey cap.agent_id cap.skill_id) (registered cap now)
  | .unregister agentId skillId => .delete (makeKey agentId skillId)

/-- The document after merging a well-formed message. -/
def mergeChanges (capabilities : Option Json) (changes : List PeerChange) : Option Json :=
  (applyEdits capabilities (changes.map PeerChange.edit)).getD capabilities

inductive Operation
  | receive (changes : List PeerChange)
  | register (cap : Capability) (now : String)
  | importPeer (incoming : List Capability) (writer now : String)
  | removePeer (agentId : String)
  | findBySkill (skillId : String)
  | getCapabilityHash

/-- The registry after an operation and whether the operation completed. -/
def run (rt : Runtime) (r : CapabilityRegistry) : Operation → CapabilityRegistry × Bool
  | .receive changes =>
      let received := r.receiveSyncMessage (mergeChanges r.capabilities changes)
      (received.1, received.2.isSome)
  | .register cap now => ((r.register cap now).1, (r.register cap now).2.isSome)
  | .importPeer incoming writer now =>
      let imported := importPeerCapabilities rt.dates r incoming writer now
      (imported.1, imported.2.isSome)
  | .removePeer agentId =>
      ((r.removePeerCapabilities agentId).1, (r.removePeerCapabilities agentId).2.isSome)
  | .findBySkill skillId => (r, (r.findBySkill skillId).isSome)
  | .getCapabilityHash => (r, (getCapabilityHash rt.sha256 r).isSome)

/-- Every operation of the run completes. -/
def AllComplete (rt : Runtime) : CapabilityRegistry → List Operation → Prop
  | _, [] => True
  | r, op :: rest => (run rt r op).2 = true ∧ AllComplete rt (run rt r op).1 rest

/-- The registry after the run. -/
def runAll (rt : Runtime) : CapabilityRegistry → List Operation → CapabilityRegistry
  | r, [] => r
  | r, op :: rest => runAll rt (run rt r op).1 rest

/-- No capability object of the document carries a field that belongs outside it. -/
def SideFieldFree (capabilities : Option Json) : Prop :=
  ∀ values, Json.objectValues capabilities = some values →
    ∀ fields, .object fields ∈ values → ∀ p ∈ fields, p.1 ∉ nonCrdtFields

/-- The message does no harm: it is received or changes nothing, and whatever runs
after it completes, over a document without side fields. -/
structure Unpoisoned (rt : Runtime) (r : CapabilityRegistry) (merged : Option Json) : Prop where
  received : (r.receiveSyncMessage merged).2 = some () ∨
    (r.receiveSyncMessage merged).1.capabilities = r.capabilities
  complete : ∀ ops, AllComplete rt (r.receiveSyncMessage merged).1 ops
  sideFieldFree : ∀ ops,
    SideFieldFree (runAll rt (r.receiveSyncMessage merged).1 ops).capabilities

/-! ## Harmless documents -/

def IsContainer (value : Json) : Prop :=
  (∃ fields, value = .object fields) ∨ ∃ items, value = .array items

/-- The fields that the hash reads. -/
def hashedFields : List String := ["agent_id", "skill_id", "version", "health"]

/-- An entry that every reader can read. -/
structure BenignEntry (value : Json) : Prop where
  container : IsContainer value
  text : ∀ field ∈ hashedFields,
    (Json.template (Json.propertyOrUndefined (some value) field)).isSome

/-- The `updated_at` of the entry has a date. -/
def Dated (dates : Dates) (value : Json) : Prop :=
  (dates.ofValue (Json.propertyOrUndefined (some value) "updated_at")).isSome

/-- An import can address the key: it contains `::`. -/
def Addressable (key : String) : Prop := "::".toList <:+: key.toList

/-- A map of entries that every reader and an import can read. -/
structure BenignFields (dates : Dates) (fields : Fields) : Prop where
  entry : ∀ p ∈ fields, BenignEntry p.2
  dated : ∀ key value, lookup fields key = some value → Addressable key → Dated dates value

def Benign (dates : Dates) (capabilities : Option Json) : Prop :=
  ∃ fields, capabilities = some (.object fields) ∧ BenignFields dates fields

theorem addressable_makeKey (agentId skillId : String) : Addressable (makeKey agentId skillId) := by
  refine ⟨agentId.toList, skillId.toList, ?_⟩
  simp [makeKey]

theorem exists_makeKey_of_addressable {key : String} (h : Addressable key) :
    ∃ agentId skillId, key = makeKey agentId skillId := by
  obtain ⟨before, after, h⟩ := h
  refine ⟨String.ofList before, String.ofList after, ?_⟩
  apply String.toList_injective
  rw [← h]
  simp [makeKey]

/-! ## Normalising -/

/-- The entry after the normalisation. -/
def stripEntry : Json → Json
  | .object fields => .object (stripNonCrdtFields fields)
  | value => value

theorem propertyOrUndefined_stripEntry (value : Json) {field : String}
    (hfield : field ∉ nonCrdtFields) :
    Json.propertyOrUndefined (some (stripEntry value)) field =
      Json.propertyOrUndefined (some value) field := by
  cases value with
  | object fields => exact lookup_stripNonCrdtFields fields hfield
  | _ => rfl

theorem normalizeEntry_eq_some_iff {value value' : Json} :
    normalizeEntry value = some value' ↔ IsContainer value ∧ value' = stripEntry value := by
  cases value with
  | object fields => simp [normalizeEntry, IsContainer, stripEntry, eq_comm]
  | array items => simp [normalizeEntry, IsContainer, stripEntry, eq_comm]
  | _ => simp [normalizeEntry, IsContainer]

theorem normalizeFields_eq_some_iff {fields fields' : Fields} :
    normalizeFields fields = some fields' ↔
      (∀ p ∈ fields, IsContainer p.2) ∧
        fields' = fields.map fun p => (p.1, stripEntry p.2) := by
  induction fields generalizing fields' with
  | nil => simp [normalizeFields, eq_comm]
  | cons p rest ih =>
      obtain ⟨key, cap⟩ := p
      unfold normalizeFields
      rw [Option.bind_eq_some_iff]
      constructor
      · rintro ⟨cap', hcap, hrest⟩
        obtain ⟨rest', hrest', rfl⟩ := Option.map_eq_some_iff.mp hrest
        obtain ⟨hcontainer, rfl⟩ := normalizeEntry_eq_some_iff.mp hcap
        obtain ⟨hall, rfl⟩ := ih.mp hrest'
        refine ⟨fun p hp => ?_, rfl⟩
        rcases List.mem_cons.mp hp with rfl | hp
        · exact hcontainer
        · exact hall p hp
      · rintro ⟨hall, rfl⟩
        refine ⟨stripEntry cap, normalizeEntry_eq_some_iff.mpr
          ⟨hall _ List.mem_cons_self, rfl⟩, ?_⟩
        rw [ih.mpr ⟨fun p hp => hall p (List.mem_cons_of_mem _ hp), rfl⟩]
        rfl

theorem lookup_map_stripEntry (fields : Fields) (key : String) :
    lookup (fields.map fun p => (p.1, stripEntry p.2)) key =
      (lookup fields key).map stripEntry := by
  induction fields with
  | nil => rfl
  | cons p rest ih =>
      obtain ⟨k, v⟩ := p
      by_cases hk : k = key
      · simp [lookup, hk]
      · simpa [lookup, hk] using ih

theorem isContainer_stripEntry {value : Json} :
    IsContainer (stripEntry value) ↔ IsContainer value := by
  cases value <;> simp [IsContainer, stripEntry]

theorem benignEntry_stripEntry {value : Json} :
    BenignEntry (stripEntry value) ↔ BenignEntry value := by
  have htext : ∀ field ∈ hashedFields,
      Json.propertyOrUndefined (some (stripEntry value)) field =
        Json.propertyOrUndefined (some value) field := by
    intro field hfield
    refine propertyOrUndefined_stripEntry value ?_
    revert field
    decide
  constructor
  · rintro ⟨hcontainer, h⟩
    exact ⟨isContainer_stripEntry.mp hcontainer, fun field hfield => htext field hfield ▸ h field hfield⟩
  · rintro ⟨hcontainer, h⟩
    refine ⟨isContainer_stripEntry.mpr hcontainer, fun field hfield => ?_⟩
    rw [htext field hfield]
    exact h field hfield

theorem dated_stripEntry {dates : Dates} {value : Json} :
    Dated dates (stripEntry value) ↔ Dated dates value := by
  unfold Dated
  rw [propertyOrUndefined_stripEntry value (by decide)]

/-! ## Clean documents -/

/-- An entry that can stand under any key. -/
structure GoodEntry (dates : Dates) (value : Json) : Prop where
  benign : BenignEntry value
  dated : Dated dates value
  sideFree : ∀ fields, value = .object fields → ∀ p ∈ fields, p.1 ∉ nonCrdtFields

/-- A harmless map without side fields. -/
structure CleanFields (dates : Dates) (fields : Fields) : Prop where
  benign : BenignFields dates fields
  sideFree : ∀ p ∈ fields, ∀ entry, p.2 = .object entry → ∀ q ∈ entry, q.1 ∉ nonCrdtFields

def Clean (dates : Dates) (capabilities : Option Json) : Prop :=
  ∃ fields, capabilities = some (.object fields) ∧ CleanFields dates fields

section

variable {dates : Dates} {fields : Fields} {key : String} {value : Json}

theorem Clean.sideFieldFree {capabilities : Option Json} (h : Clean dates capabilities) :
    SideFieldFree capabilities := by
  obtain ⟨fields, rfl, hclean⟩ := h
  intro values hvalues entry hentry p hp
  obtain rfl := Option.some.inj hvalues
  obtain ⟨q, hq, hobject⟩ := List.mem_map.mp hentry
  exact hclean.sideFree q hq entry hobject p hp

theorem CleanFields.insertField (h : CleanFields dates fields) (hgood : GoodEntry dates value) :
    CleanFields dates (insertField fields key value) := by
  refine ⟨⟨fun p hp => ?_, fun key' value' hlookup haddressable => ?_⟩, fun p hp => ?_⟩
  · rcases mem_insertField hp with rfl | hp
    · exact hgood.benign
    · exact h.benign.entry p hp
  · rw [lookup_insertField] at hlookup
    split at hlookup
    · obtain rfl := Option.some.inj hlookup
      exact hgood.dated
    · exact h.benign.dated key' value' hlookup haddressable
  · rcases mem_insertField hp with rfl | hp
    · exact hgood.sideFree
    · exact h.sideFree p hp

theorem CleanFields.eraseField (h : CleanFields dates fields) :
    CleanFields dates (eraseField fields key) := by
  refine ⟨⟨fun p hp => h.benign.entry p (mem_eraseField hp),
    fun key' value' hlookup haddressable => ?_⟩, fun p hp => h.sideFree p (mem_eraseField hp)⟩
  rw [lookup_eraseField] at hlookup
  split at hlookup
  · cases hlookup
  · exact h.benign.dated key' value' hlookup haddressable

/-- The normalisation accepts every harmless document and makes it clean. -/
theorem Benign.normalize {capabilities : Option Json} (h : Benign dates capabilities) :
    ∃ normalized, normalizeCrdtSchema capabilities = some normalized ∧ Clean dates normalized := by
  obtain ⟨fields, rfl, hbenign⟩ := h
  have hnormalize : normalizeFields fields = some (fields.map fun p => (p.1, stripEntry p.2)) :=
    normalizeFields_eq_some_iff.mpr ⟨fun p hp => (hbenign.entry p hp).container, rfl⟩
  refine ⟨_, by rw [normalizeCrdtSchema, hnormalize]; rfl, _, rfl, ⟨⟨?_, ?_⟩, ?_⟩⟩
  · intro p hp
    obtain ⟨q, hq, rfl⟩ := List.mem_map.mp hp
    exact benignEntry_stripEntry.mpr (hbenign.entry q hq)
  · intro key value hlookup haddressable
    rw [lookup_map_stripEntry] at hlookup
    obtain ⟨value, hvalue, rfl⟩ := Option.map_eq_some_iff.mp hlookup
    exact dated_stripEntry.mpr (hbenign.dated key value hvalue haddressable)
  · intro p hp entry hentry q hq
    obtain ⟨p, hp, rfl⟩ := List.mem_map.mp hp
    obtain ⟨key, cap⟩ := p
    cases cap with
    | object inner =>
        obtain rfl := Json.object.inj hentry
        exact of_decide_eq_true (List.mem_filter.mp hq).2
    | _ => cases hentry

/-! ## Edits that keep the document clean -/

/-- The edits that the operations perform on a clean document. -/
inductive SafeEdit (dates : Dates) : Edit → Prop
  | put {key : String} {value : Json} (h : GoodEntry dates value) : SafeEdit dates (.put key value)
  | delete {key : String} : SafeEdit dates (.delete key)

theorem applyEdit_safe (h : CleanFields dates fields) {edit : Edit} (hsafe : SafeEdit dates edit) :
    ∃ fields', applyEdit (.object fields) edit = some (.object fields') ∧
      CleanFields dates fields' := by
  cases hsafe with
  | put hgood => exact ⟨_, rfl, h.insertField hgood⟩
  | delete => exact ⟨_, rfl, h.eraseField⟩

theorem applyEdits_safe {edits : List Edit} (h : CleanFields dates fields)
    (hsafe : ∀ edit ∈ edits, SafeEdit dates edit) :
    ∃ fields', applyEdits (some (.object fields)) edits = some (some (.object fields')) ∧
      CleanFields dates fields' := by
  induction edits generalizing fields with
  | nil => exact ⟨fields, rfl, h⟩
  | cons edit rest ih =>
      obtain ⟨fields', hedit, hclean⟩ := applyEdit_safe h (hsafe edit List.mem_cons_self)
      obtain ⟨fields'', hrest, hclean'⟩ :=
        ih hclean fun edit hmem => hsafe edit (List.mem_cons_of_mem _ hmem)
      refine ⟨fields'', ?_, hclean'⟩
      rw [applyEdits, hedit]
      exact hrest

/-- A change that computes safe edits goes through and leaves a clean document. -/
theorem change_safe {r : CapabilityRegistry} (edits : Option Json → Option (List Edit))
    {es : List Edit} (h : Clean dates r.capabilities) (hedits : edits r.capabilities = some es)
    (hsafe : ∀ edit ∈ es, SafeEdit dates edit) :
    ∃ fields, r.change edits = ({ r with capabilities := some (.object fields) }, some es) ∧
      CleanFields dates fields := by
  obtain ⟨fields, hcapabilities, hclean⟩ := h
  obtain ⟨fields', happly, hclean'⟩ := applyEdits_safe hclean hsafe
  refine ⟨fields', ?_, hclean'⟩
  rw [change, hedits, Option.bind_some, hcapabilities, happly]
  rfl

end

/-! ## What is written -/

/-- A map of fields that has a text in each hashed field and a text `updated_at`. -/
theorem goodEntry_of_texts (dates : Dates) {fields : Fields}
    (htext : ∀ field ∈ "updated_at" :: hashedFields,
      ∃ text, lookup fields field = some (.string text))
    (hfree : ∀ p ∈ fields, p.1 ∉ nonCrdtFields) : GoodEntry dates (.object fields) := by
  refine ⟨⟨.inl ⟨fields, rfl⟩, fun field hfield => ?_⟩, ?_, fun entry hentry => ?_⟩
  · obtain ⟨text, hlookup⟩ := htext field (List.mem_cons_of_mem _ hfield)
    rw [Json.propertyOrUndefined, hlookup]
    rfl
  · obtain ⟨text, hlookup⟩ := htext "updated_at" List.mem_cons_self
    rw [Dated, Json.propertyOrUndefined, hlookup]
    rfl
  · obtain rfl := Json.object.inj hentry
    exact hfree

theorem texts_toFields (cap : Capability) :
    ∀ field ∈ "updated_at" :: hashedFields,
      ∃ text, lookup (stripNonCrdtFields cap.toFields) field = some (.string text) := by
  intro field hfield
  have hplain : field ∉ nonCrdtFields := by
    revert field
    decide
  rw [lookup_stripNonCrdtFields _ hplain]
  have hcases : field = "updated_at" ∨ field = "agent_id" ∨ field = "skill_id" ∨
      field = "version" ∨ field = "health" := by
    simpa [hashedFields] using hfield
  rcases hcases with rfl | rfl | rfl | rfl | rfl
  all_goals simp [Capability.toFields, lookup]

theorem sideFree_stripNonCrdtFields {fields : Fields} :
    ∀ p ∈ stripNonCrdtFields fields, p.1 ∉ nonCrdtFields :=
  fun _ hp => of_decide_eq_true (List.mem_filter.mp hp).2

theorem goodEntry_stripNonCrdtFields (dates : Dates) (cap : Capability) :
    GoodEntry dates (.object (stripNonCrdtFields cap.toFields)) :=
  goodEntry_of_texts dates (texts_toFields cap) sideFree_stripNonCrdtFields

theorem goodEntry_registered (dates : Dates) (cap : Capability) (now : String) :
    GoodEntry dates (registered cap now) := by
  apply goodEntry_of_texts dates
  · intro field hfield
    rw [lookup_insertField]
    split
    · exact ⟨now, rfl⟩
    · exact texts_toFields cap field hfield
  · intro p hp
    rcases mem_insertField hp with rfl | hp
    · show "updated_at" ∉ nonCrdtFields
      decide
    · exact sideFree_stripNonCrdtFields p hp

theorem PeerChange.safe (dates : Dates) (change : PeerChange) : SafeEdit dates change.edit := by
  cases change with
  | register cap now => exact .put (goodEntry_registered dates cap now)
  | unregister agentId skillId => exact .delete

theorem mergeChanges_clean {dates : Dates} {capabilities : Option Json}
    (h : Clean dates capabilities) (changes : List PeerChange) :
    Clean dates (mergeChanges capabilities changes) := by
  obtain ⟨fields, rfl, hclean⟩ := h
  have hsafe : ∀ edit ∈ changes.map PeerChange.edit, SafeEdit dates edit := by
    intro edit hedit
    obtain ⟨change, -, rfl⟩ := List.mem_map.mp hedit
    exact change.safe dates
  obtain ⟨fields', happly, hclean'⟩ := applyEdits_safe hclean hsafe
  refine ⟨fields', ?_, hclean'⟩
  rw [mergeChanges, happly]
  rfl

/-! ## The readers -/

theorem BenignEntry.property_eq {value : Json} (h : IsContainer value) (field : String) :
    value.property field = some (Json.propertyOrUndefined (some value) field) := by
  rcases h with ⟨fields, rfl⟩ | ⟨items, rfl⟩
  · rfl
  · rfl

theorem filterThrowing_isSome_iff {test : Json → Option Bool} {values : List Json} :
    (filterThrowing test values).isSome ↔ ∀ c ∈ values, (test c).isSome := by
  induction values with
  | nil => simp [filterThrowing]
  | cons c rest ih =>
      rw [List.forall_mem_cons, ← ih, filterThrowing]
      cases test c <;> cases filterThrowing test rest <;> simp

theorem hashLines_isSome_iff {values : List Json} :
    (hashLines values).isSome ↔ ∀ c ∈ values, (hashLine c).isSome := by
  induction values with
  | nil => simp [hashLines]
  | cons c rest ih =>
      rw [List.forall_mem_cons, ← ih, hashLines]
      cases hashLine c <;> cases hashLines rest <;> simp

/-- The hash reads exactly the four hashed fields of an entry. -/
theorem hashLine_isSome_iff {value : Json} (h : IsContainer value) :
    (hashLine value).isSome ↔ ∀ field ∈ hashedFields,
      (Json.template (Json.propertyOrUndefined (some value) field)).isSome := by
  rw [hashLine, BenignEntry.property_eq h, Option.bind_some]
  simp only [hashedFields, List.forall_mem_cons, List.not_mem_nil, false_implies, implies_true,
    and_true]
  cases Json.template (Json.propertyOrUndefined (some value) "agent_id") <;>
    cases Json.template (Json.propertyOrUndefined (some value) "skill_id") <;>
    cases Json.template (Json.propertyOrUndefined (some value) "version") <;>
    cases Json.template (Json.propertyOrUndefined (some value) "health") <;> simp

theorem isRoutable_isSome (r : CapabilityRegistry) (skillId : String) {value : Json}
    (h : BenignEntry value) : (r.isRoutable skillId value).isSome := by
  rw [isRoutable, BenignEntry.property_eq h.container, Option.bind_some]
  dsimp only
  split
  · have hagent := h.text "agent_id" (by decide)
    rw [Option.isSome_map]
    exact hagent
  · rfl

theorem findBySkill_isSome {dates : Dates} {r : CapabilityRegistry} (skillId : String)
    (h : Clean dates r.capabilities) : (r.findBySkill skillId).isSome := by
  obtain ⟨fields, hcapabilities, hclean⟩ := h
  rw [findBySkill, hcapabilities]
  apply filterThrowing_isSome_iff.mpr
  intro c hc
  obtain ⟨p, hp, rfl⟩ := List.mem_map.mp hc
  exact isRoutable_isSome r skillId (hclean.benign.entry p hp)

/-- The hash of a map completes exactly if every line does. -/
theorem getCapabilityHash_isSome_iff {sha256 : String → String} {r : CapabilityRegistry}
    {fields : Fields} (h : r.capabilities = some (.object fields)) :
    (getCapabilityHash sha256 r).isSome ↔ ∀ p ∈ fields, (hashLine p.2).isSome := by
  have hvalues : getCapabilityHash sha256 r = hashCapabilities sha256 (fields.map Prod.snd) := by
    rw [getCapabilityHash, h]
    rfl
  rw [hvalues, hashCapabilities, Option.isSome_map, hashLines_isSome_iff, List.forall_mem_map]

theorem getCapabilityHash_isSome {dates : Dates} {r : CapabilityRegistry}
    (sha256 : String → String) (h : Clean dates r.capabilities) :
    (getCapabilityHash sha256 r).isSome := by
  obtain ⟨fields, hcapabilities, hclean⟩ := h
  refine (getCapabilityHash_isSome_iff hcapabilities).mpr fun p hp => ?_
  exact (hashLine_isSome_iff (hclean.benign.entry p hp).container).mpr
    (hclean.benign.entry p hp).text

/-! ## The writers -/

theorem truthy_of_container {value : Json} (h : IsContainer value) :
    Json.truthy (some value) = true := by
  rcases h with ⟨fields, rfl⟩ | ⟨items, rfl⟩
  · rfl
  · rfl

/-- The comparison of an import completes exactly on a dated container. -/
theorem replaces_isSome_iff {dates : Dates} {cap : Capability} {value : Json}
    (h : IsContainer value) : (replaces dates cap (some value)).isSome ↔ Dated dates value := by
  rw [replaces, if_pos (truthy_of_container h), Option.isSome_map]
  rfl

theorem importEdits_object (dates : Dates) (cap : Capability) (rest : List Capability)
    (fields : Fields) :
    importEdits dates (cap :: rest) (some (.object fields)) =
      (replaces dates cap (lookup fields (makeKey cap.agent_id cap.skill_id))).bind fun replace =>
        if replace then
          (importEdits dates rest (some (.object (insertField fields
            (makeKey cap.agent_id cap.skill_id) (.object (stripNonCrdtFields cap.toFields)))))).map
              fun edits => .put (makeKey cap.agent_id cap.skill_id)
                (.object (stripNonCrdtFields cap.toFields)) :: edits
        else importEdits dates rest (some (.object fields)) :=
  rfl

theorem importEdits_safe {dates : Dates} (incoming : List Capability) {fields : Fields}
    (h : CleanFields dates fields) :
    ∃ es, importEdits dates incoming (some (.object fields)) = some es ∧
      ∀ edit ∈ es, SafeEdit dates edit := by
  induction incoming generalizing fields with
  | nil => exact ⟨[], rfl, fun _ h => nomatch h⟩
  | cons cap rest ih =>
      -- a clean entry has a date that can be compared
      have hreplaces : (replaces dates cap
          (lookup fields (makeKey cap.agent_id cap.skill_id))).isSome := by
        cases hlookup : lookup fields (makeKey cap.agent_id cap.skill_id) with
        | none => rfl
        | some value =>
            have hentry := h.benign.entry _ (mem_of_lookup hlookup)
            have hdated := h.benign.dated _ value hlookup (addressable_makeKey _ _)
            exact (replaces_isSome_iff hentry.container).mpr hdated
      obtain ⟨replace, hreplace⟩ := Option.isSome_iff_exists.mp hreplaces
      rw [importEdits_object, hreplace, Option.bind_some]
      split
      · have hgood := goodEntry_stripNonCrdtFields dates cap
        obtain ⟨es, hes, hsafe⟩ := ih (h.insertField hgood)
        rw [hes]
        refine ⟨_, rfl, fun edit hedit => ?_⟩
        rcases List.mem_cons.mp hedit with rfl | hedit
        · exact .put hgood
        · exact hsafe edit hedit
      · exact ih h

theorem removeEdits_safe (dates : Dates) (agentId : String) (keys : List String) (value : Json) :
    ∀ edit ∈ removeEdits agentId keys value, SafeEdit dates edit := by
  induction keys generalizing value with
  | nil => exact fun _ h => nomatch h
  | cons key rest ih =>
      intro edit hedit
      rw [removeEdits] at hedit
      split at hedit
      · rcases List.mem_cons.mp hedit with rfl | hedit
        · exact .delete
        · exact ih _ edit hedit
      · exact ih _ edit hedit

/-! ## Runs over a clean document -/

theorem receiveSyncMessage_benign {dates : Dates} {merged : Option Json} (r : CapabilityRegistry)
    (h : Benign dates merged) :
    (r.receiveSyncMessage merged).2 = some () ∧
      Clean dates (r.receiveSyncMessage merged).1.capabilities := by
  obtain ⟨normalized, hnormalize, hclean⟩ := h.normalize
  rw [receiveSyncMessage, hnormalize]
  exact ⟨rfl, hclean⟩

theorem Clean.toBenign {dates : Dates} {capabilities : Option Json} (h : Clean dates capabilities) :
    Benign dates capabilities := by
  obtain ⟨fields, rfl, hclean⟩ := h
  exact ⟨fields, rfl, hclean.benign⟩

theorem foldl_capabilities {f : CapabilityRegistry → Capability → CapabilityRegistry}
    (hf : ∀ r cap, (f r cap).capabilities = r.capabilities) (caps : List Capability)
    (r : CapabilityRegistry) : (caps.foldl f r).capabilities = r.capabilities := by
  induction caps generalizing r with
  | nil => rfl
  | cons cap rest ih =>
      rw [List.foldl_cons, ih]
      exact hf r cap

/-- Each operation completes over a clean document and leaves it clean. -/
theorem run_clean (rt : Runtime) {r : CapabilityRegistry} (h : Clean rt.dates r.capabilities)
    (op : Operation) :
    (run rt r op).2 = true ∧ Clean rt.dates (run rt r op).1.capabilities := by
  cases op with
  | receive changes =>
      obtain ⟨hreceived, hclean⟩ := receiveSyncMessage_benign r (mergeChanges_clean h changes).toBenign
      refine ⟨?_, hclean⟩
      rw [run, hreceived]
      rfl
  -- the edits of a local call put entries that normalize
  | register cap now =>
      have hsafe : ∀ edit ∈ [Edit.put (makeKey cap.agent_id cap.skill_id) (registered cap now)],
          SafeEdit rt.dates edit := by
        intro edit hedit
        obtain rfl := List.mem_singleton.mp hedit
        exact .put (goodEntry_registered rt.dates cap now)
      obtain ⟨fields, hchange, hclean⟩ := change_safe
        (fun _ => some [.put (makeKey cap.agent_id cap.skill_id) (registered cap now)]) h rfl hsafe
      rw [run, register, hchange]
      exact ⟨rfl, fields, rfl, hclean⟩
  | importPeer incoming writer now =>
      obtain ⟨fields₀, hcapabilities, hclean₀⟩ := h
      -- the availability is written after the document and leaves it alone
      obtain ⟨es, hes, hsafe⟩ :=
        importEdits_safe (incoming.filter fun cap => cap.agent_id = writer) hclean₀
      rw [← hcapabilities] at hes
      obtain ⟨fields, hchange, hclean⟩ := change_safe (r := { r with
        rejectedForeignWrites := r.rejectedForeignWrites +
          (incoming.filter fun (cap : Capability) => cap.agent_id ≠ writer).length })
        (importEdits rt.dates (incoming.filter fun cap => cap.agent_id = writer))
        ⟨fields₀, hcapabilities, hclean₀⟩ hes hsafe
      rw [run, importPeerCapabilities, hchange]
      refine ⟨rfl, fields, ?_, hclean⟩
      apply foldl_capabilities
      intro r cap
      cases incomingAvailability cap now <;> rfl
  | removePeer agentId =>
      obtain ⟨fields₀, hcapabilities, hclean₀⟩ := h
      obtain ⟨fields, hchange, hclean⟩ := change_safe (removePeerEdits agentId)
        ⟨fields₀, hcapabilities, hclean₀⟩ (by rw [hcapabilities]; rfl)
        (removeEdits_safe rt.dates agentId (fields₀.map Prod.fst) (.object fields₀))
      rw [run, removePeerCapabilities, hchange]
      exact ⟨rfl, fields, rfl, hclean⟩
  | findBySkill skillId => exact ⟨findBySkill_isSome skillId h, h⟩
  | getCapabilityHash => exact ⟨getCapabilityHash_isSome rt.sha256 h, h⟩

theorem runAll_clean (rt : Runtime) {r : CapabilityRegistry} (h : Clean rt.dates r.capabilities)
    (ops : List Operation) :
    AllComplete rt r ops ∧ Clean rt.dates (runAll rt r ops).capabilities := by
  induction ops generalizing r with
  | nil => exact ⟨trivial, h⟩
  | cons op rest ih =>
      obtain ⟨hcompletes, hclean⟩ := run_clean rt h op
      exact ⟨⟨hcompletes, (ih hclean).1⟩, (ih hclean).2⟩

/-! ## What a completed operation says about the document -/

/-- Only a map takes a new key. -/
theorem object_of_register {r : CapabilityRegistry} {cap : Capability} {now : String}
    (h : (r.register cap now).2.isSome) : ∃ fields, r.capabilities = some (.object fields) := by
  rw [register, Option.isSome_map] at h
  obtain ⟨es, hchange⟩ := Option.isSome_iff_exists.mp h
  obtain ⟨hes, happly⟩ := change_eq_some hchange
  obtain rfl := Option.some.inj hes
  cases hcapabilities : r.capabilities with
  | none => simp [hcapabilities, applyEdits] at happly
  | some value =>
      cases value with
      | object fields => exact ⟨fields, rfl⟩
      | _ => simp [hcapabilities, applyEdits, applyEdit] at happly

theorem dated_of_import {dates : Dates} {r : CapabilityRegistry} {fields : Fields}
    (cap : Capability) {value : Json} {now : String}
    (hcapabilities : r.capabilities = some (.object fields))
    (hlookup : lookup fields (makeKey cap.agent_id cap.skill_id) = some value)
    (hcontainer : IsContainer value)
    (h : (importPeerCapabilities dates r [cap] cap.agent_id now).2.isSome) :
    Dated dates value := by
  have haccepted : [cap].filter (fun c => c.agent_id = cap.agent_id) = [cap] := by simp
  rw [importPeerCapabilities, haccepted] at h
  split at h
  · cases h
  · rename_i changed es hchange
    obtain ⟨hes, -⟩ := change_eq_some (congrArg Prod.snd hchange)
    rw [show ({ r with rejectedForeignWrites := _ } : CapabilityRegistry).capabilities =
      some (.object fields) from hcapabilities, importEdits_object, hlookup] at hes
    obtain ⟨replace, hreplace, -⟩ := Option.bind_eq_some_iff.mp hes
    exact (replaces_isSome_iff hcontainer).mp (Option.isSome_of_eq_some hreplace)

/-- The normalisation keeps the kind of the container. -/
theorem object_of_normalize {merged : Option Json} {fields' : Fields}
    (h : normalizeCrdtSchema merged = some (some (.object fields'))) :
    ∃ fields, merged = some (.object fields) ∧ normalizeFields fields = some fields' := by
  cases merged with
  | none => cases h
  | some value =>
      cases value with
      | object fields =>
          obtain ⟨fields'', hfields, heq⟩ := Option.map_eq_some_iff.mp h
          obtain rfl : fields'' = fields' := Json.object.inj (Option.some.inj heq)
          exact ⟨fields, rfl, hfields⟩
      | array items =>
          obtain ⟨items', -, heq⟩ := Option.map_eq_some_iff.mp h
          cases heq
      | string text =>
          rw [normalizeCrdtSchema] at h
          split at h <;> cases h
      | _ => cases h

/-- After a message that leaves a map which can be normalised again, the merged
document was a map of containers. -/
theorem containers_of_receive {r : CapabilityRegistry} {merged : Option Json} {fields' : Fields}
    (hmap : (r.receiveSyncMessage merged).1.capabilities = some (.object fields'))
    (hagain : (normalizeCrdtSchema (r.receiveSyncMessage merged).1.capabilities).isSome) :
    ∃ fields, merged = some (.object fields) ∧ (∀ p ∈ fields, IsContainer p.2) ∧
      fields' = fields.map fun p => (p.1, stripEntry p.2) := by
  cases hnormalize : normalizeCrdtSchema merged with
  | none =>
      rw [receiveSyncMessage, hnormalize] at hagain
      rw [hnormalize] at hagain
      cases hagain
  | some normalized =>
      rw [receiveSyncMessage, hnormalize] at hmap
      obtain rfl : normalized = some (.object fields') := hmap
      obtain ⟨fields, rfl, hfields⟩ := object_of_normalize hnormalize
      exact ⟨fields, rfl, normalizeFields_eq_some_iff.mp hfields⟩

/-! ## The two directions -/

theorem unpoisoned_of_benign {rt : Runtime} (r : CapabilityRegistry) {merged : Option Json}
    (h : Benign rt.dates merged) : Unpoisoned rt r merged := by
  obtain ⟨hreceived, hclean⟩ := receiveSyncMessage_benign r h
  exact ⟨.inl hreceived, fun ops => (runAll_clean rt hclean ops).1,
    fun ops => (runAll_clean rt hclean ops).2.sideFieldFree⟩

theorem benign_of_unpoisoned {rt : Runtime} {r : CapabilityRegistry} {merged : Option Json}
    (h : Unpoisoned rt r merged) : Benign rt.dates merged := by
  have hcompletes : ∀ op, (run rt (r.receiveSyncMessage merged).1 op).2 = true :=
    fun op => (h.complete [op]).1
  let probe (agentId skillId : String) : Capability :=
    ⟨skillId, "", "", agentId, .healthy, 0, "", "", [], []⟩
  -- A registration needs a map, an empty message a map that can be normalised.
  obtain ⟨fields', hmap⟩ := object_of_register (by
    simpa [run] using hcompletes (.register (probe "" "") ""))
  have hagain : (normalizeCrdtSchema (r.receiveSyncMessage merged).1.capabilities).isSome := by
    have hreceive := hcompletes (.receive [])
    rw [run, mergeChanges, List.map_nil, applyEdits, Option.getD_some] at hreceive
    cases hnormalize : normalizeCrdtSchema (r.receiveSyncMessage merged).1.capabilities with
    | none =>
        rw [receiveSyncMessage.eq_def (r.receiveSyncMessage merged).1, hnormalize] at hreceive
        cases hreceive
    | some _ => rfl
  obtain ⟨fields, rfl, hcontainer, rfl⟩ := containers_of_receive hmap hagain
  refine ⟨fields, rfl, fun p hp => ?_, fun key value hlookup haddressable => ?_⟩
  · -- The hash reads every entry.
    have hhash : (getCapabilityHash rt.sha256 (r.receiveSyncMessage (some (.object fields))).1).isSome := by
      simpa [run] using hcompletes .getCapabilityHash
    have hline := (getCapabilityHash_isSome_iff hmap).mp hhash _ (List.mem_map_of_mem hp)
    have hstripped := isContainer_stripEntry.mpr (hcontainer p hp)
    exact benignEntry_stripEntry.mp ⟨hstripped, (hashLine_isSome_iff hstripped).mp hline⟩
  · -- An import of a capability with this key compares the dates.
    obtain ⟨agentId, skillId, rfl⟩ := exists_makeKey_of_addressable haddressable
    have himport := hcompletes (.importPeer [probe agentId skillId] agentId "")
    have hstripped := isContainer_stripEntry.mpr (hcontainer _ (mem_of_lookup hlookup))
    apply dated_stripEntry.mp
    refine dated_of_import (probe agentId skillId) hmap ?_ hstripped himport
    rw [lookup_map_stripEntry, hlookup]
    rfl

/-- A merged document leaves the registry usable exactly when it is harmless. -/
theorem unpoisoned_iff_benign (rt : Runtime) (r : CapabilityRegistry) (merged : Option Json) :
    Unpoisoned rt r merged ↔ Benign rt.dates merged :=
  ⟨benign_of_unpoisoned, unpoisoned_of_benign r⟩

/-- The runtime of the example: no text is a date. -/
def plainRuntime : Runtime where
  dates := ⟨fun _ => none, fun _ => none, fun _ => some none⟩
  sha256 := id

/-- One `null` under a capability key: the message throws, the document has
changed, and the next empty message throws again. -/
theorem poisoned_by_null :
    ¬ Unpoisoned plainRuntime .fresh (some (.object [("agent::skill", .null)])) := by
  intro h
  have hreceive := (h.complete [.receive []]).1
  revert hreceive
  decide

end ThinkLocal.Registry
