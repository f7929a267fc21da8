import ThinkLocal.Foundation.Freshness
import ThinkLocal.Registry.Poison
import ThinkLocal.Registry.ReplicaView

/-!
# Imports of one writer

What `importPeerCapabilities` does to each entry and each record.  An entry is a cell that keeps the
freshest capability; a record is the last one of the batch.  A batch of a writer touches the keys that
begin with the writer, and these may be keys of other agents as well.
-/

namespace ThinkLocal.Registry

open Foundation CapabilityRegistry

variable {dates : Dates} {cap : Capability} {caps : List Capability}
  {fields fields' : Fields}

/-! ## Entries as cells -/

def Capability.key (cap : Capability) : String := makeKey cap.agent_id cap.skill_id

/-- The entry that an import writes. -/
def Capability.entry (cap : Capability) : Json := .object (stripNonCrdtFields cap.toFields)

theorem laterThan_trans {a b c : Option Int} (hab : laterThan a b = true)
    (hbc : laterThan b c = true) : laterThan a c = true := by
  cases a <;> cases b <;> cases c <;> simp_all only [laterThan, decide_eq_true_eq, reduceCtorEq]
  omega

theorem laterThan_irrefl (a : Option Int) : laterThan a a = false := by
  cases a with
  | none => rfl
  | some t => exact decide_eq_false (lt_irrefl t)

theorem laterThan_total {a b : Option Int} (ha : a.isSome) (hb : b.isSome) (hne : a ≠ b) :
    laterThan a b = true ∨ laterThan b a = true := by
  obtain ⟨s, rfl⟩ := Option.isSome_iff_exists.mp ha
  obtain ⟨t, rfl⟩ := Option.isSome_iff_exists.mp hb
  have hst : s ≠ t := fun h => hne (congrArg some h)
  rcases lt_or_gt_of_ne hst with hlt | hgt
  · exact .inr (decide_eq_true hlt)
  · exact .inl (decide_eq_true hgt)

/-- Between two imported entries their dates decide. -/
theorem replaces_entry (dates : Dates) (cap cap' : Capability) :
    replaces dates cap (some cap'.entry) =
      some (laterThan (dates.ofText cap.updated_at) (dates.ofText cap'.updated_at)) := by
  have hlookup : lookup (stripNonCrdtFields cap'.toFields) "updated_at" =
      some (.string cap'.updated_at) := by
    rw [lookup_stripNonCrdtFields _ (by decide)]
    rfl
  rw [replaces, if_pos (by rfl), Capability.entry, Json.propertyOrUndefined, hlookup]
  rfl

/-- The comparison with the entry does not throw. -/
def Readable (dates : Dates) (existing : Option Json) : Prop :=
  Json.truthy existing = true →
    (dates.ofValue (Json.propertyOrUndefined existing "updated_at")).isSome

theorem replaces_isSome {existing : Option Json} :
    (replaces dates cap existing).isSome ↔ Readable dates existing := by
  unfold replaces Readable
  split_ifs with htruthy
  · rw [Option.isSome_map]
    exact ⟨fun h _ => h, fun h => h htruthy⟩
  · exact ⟨fun _ h => absurd h htruthy, fun _ => rfl⟩

/-- An entry keeps the freshest capability. -/
def entryCell (dates : Dates) : Freshness (Option Json) Capability where
  beats cap existing := replaces dates cap existing = some true
  held cap := some cap.entry
  irrefl cap := by
    rw [replaces_entry, laterThan_irrefl]
    rfl
  trans {a b existing} hab hb := by
    have hdates := of_decide_eq_true hab
    have hb := of_decide_eq_true hb
    rw [replaces_entry] at hdates
    refine decide_eq_true ?_
    unfold replaces at hb ⊢
    split_ifs at hb ⊢ with htruthy
    · obtain ⟨updated, hupdated, hlater⟩ := Option.map_eq_some_iff.mp hb
      rw [hupdated, Option.map_some, laterThan_trans (Option.some.inj hdates) hlater]
    · rfl

theorem take_of_replaces {existing : Option Json} {replace : Bool}
    (h : replaces dates cap existing = some replace) :
    (entryCell dates).take existing cap = if replace then some cap.entry else existing := by
  have hbeats : (entryCell dates).beats cap existing = replace := by
    have hbeats : (entryCell dates).beats cap existing =
        decide (replaces dates cap existing = some true) := rfl
    rw [hbeats, h]
    cases replace <;> rfl
  rw [Freshness.take, hbeats]
  rfl

/-! ## The writes of a batch -/

/-- Each capability of the batch can be compared with its entry. -/
def BatchReadable (dates : Dates) (caps : List Capability) (fields : Fields) : Prop :=
  ∀ cap ∈ caps, Readable dates (lookup fields cap.key)

/-- The entry under the key after the batch. -/
def entryAfter (dates : Dates) (caps : List Capability) (fields : Fields) (key : String) :
    Option Json :=
  (entryCell dates).takeAll (lookup fields key) (caps.filter (·.key = key))

theorem entryAfter_cons (key : String) (hfields' : ∀ key', lookup fields' key' =
      if key' = cap.key then (entryCell dates).take (lookup fields key') cap
      else lookup fields key') :
    entryAfter dates (cap :: caps) fields key = entryAfter dates caps fields' key := by
  unfold entryAfter
  rw [hfields' key, List.filter_cons]
  by_cases hkey : cap.key = key
  · rw [if_pos (decide_eq_true hkey), if_pos hkey.symm]
    rfl
  · rw [if_neg (by simpa using hkey), if_neg (Ne.symm hkey)]

theorem readable_take {existing : Option Json} (h : Readable dates existing) :
    Readable dates ((entryCell dates).take existing cap) := by
  unfold Freshness.take
  split_ifs
  · have hsome : (replaces dates cap (some cap.entry)).isSome := by
      rw [replaces_entry]
      rfl
    exact replaces_isSome.mp hsome
  · exact h

/-- A batch that can be compared is written. -/
theorem importEdits_of_readable (h : BatchReadable dates caps fields) :
    ∃ edits fields', importEdits dates caps (some (.object fields)) = some edits ∧
      applyEdits (some (.object fields)) edits = some (some (.object fields')) ∧
      ∀ key, lookup fields' key = entryAfter dates caps fields key := by
  induction caps generalizing fields with
  | nil => exact ⟨[], fields, rfl, rfl, fun _ => rfl⟩
  | cons cap caps ih =>
      have hread := h cap List.mem_cons_self
      obtain ⟨replace, hreplace⟩ := Option.isSome_iff_exists.mp (replaces_isSome.mpr hread)
      rw [importEdits_object, show makeKey cap.agent_id cap.skill_id = cap.key from rfl, hreplace,
        Option.bind_some]
      cases replace with
      | false =>
          -- the entry is at least as new, and keeping it is what taking the state does
          have hsame : ∀ key', lookup fields key' =
              if key' = cap.key then (entryCell dates).take (lookup fields key') cap
              else lookup fields key' := by
            intro key'
            split_ifs with hkey
            · rw [hkey, take_of_replaces hreplace]
              rfl
            · rfl
          obtain ⟨edits, fields', hedits, happly, hafter⟩ :=
            ih fun cap' hcap' => h cap' (List.mem_cons_of_mem _ hcap')
          refine ⟨edits, fields', hedits, happly, fun key => ?_⟩
          rw [hafter key, entryAfter_cons key hsame]
      | true =>
          -- the state is newer, and only its key is written
          have hwritten : ∀ key', lookup (insertField fields cap.key cap.entry) key' =
              if key' = cap.key then (entryCell dates).take (lookup fields key') cap
              else lookup fields key' := by
            intro key'
            rw [lookup_insertField]
            split_ifs with hkey
            · rw [hkey, take_of_replaces hreplace]
              rfl
            · rfl
          -- what was written can be compared, so the rest of the batch can
          have hrest : BatchReadable dates caps (insertField fields cap.key cap.entry) := by
            intro cap' hcap'
            rw [hwritten]
            have hold := h cap' (List.mem_cons_of_mem _ hcap')
            split_ifs with hkey
            · exact readable_take hold
            · exact hold
          obtain ⟨edits, fields', hedits, happly, hafter⟩ := ih hrest
          refine ⟨.put cap.key cap.entry :: edits, fields', ?_, ?_, fun key => ?_⟩
          · rw [if_pos rfl]
            exact congrArg (Option.map _) hedits
          · exact happly
          · rw [hafter key, entryAfter_cons key hwritten]

/-- A batch with a comparison that throws is not written. -/
theorem importEdits_of_not_readable (h : ¬ BatchReadable dates caps fields) :
    importEdits dates caps (some (.object fields)) = none := by
  induction caps generalizing fields with
  | nil => exact absurd (fun _ hmem => nomatch hmem) h
  | cons cap caps ih =>
      rw [importEdits_object, show makeKey cap.agent_id cap.skill_id = cap.key from rfl]
      cases hreplace : replaces dates cap (lookup fields cap.key) with
      | none => rfl
      | some replace =>
          have hread : Readable dates (lookup fields cap.key) := by
            rw [← replaces_isSome, hreplace]
            rfl
          -- the comparison that throws is in the rest of the batch
          have hrest : ∀ fields' : Fields, (∀ key', Readable dates (lookup fields' key') →
              Readable dates (lookup fields key')) → ¬ BatchReadable dates caps fields' := by
            intro fields' hback hrest
            refine h fun cap' hcap' => ?_
            rcases List.mem_cons.mp hcap' with rfl | hcap'
            · exact hread
            · exact hback _ (hrest cap' hcap')
          rw [Option.bind_some]
          split_ifs
          · have hwritten := ih (hrest (insertField fields cap.key cap.entry) ?_)
            · exact congrArg (Option.map _) hwritten
            · intro key' hkey'
              rw [lookup_insertField] at hkey'
              split_ifs at hkey' with hkey
              · rw [hkey]
                exact hread
              · exact hkey'
          · exact ih (hrest fields fun _ => id)

/-- A batch writes nothing into a container that is no object. -/
theorem importEdits_of_not_object {value : Json} (hvalue : ∀ fields, value ≠ .object fields)
    {edits : List Edit} (h : importEdits dates caps (some value) = some edits) : edits = [] := by
  induction caps with
  | nil => exact (Option.some.inj h).symm
  | cons cap caps ih =>
      cases value with
      | null => cases h
      | object fields => exact absurd rfl (hvalue fields)
      | bool | number | string | array =>
          unfold importEdits at h
          obtain ⟨replace, -, h⟩ := Option.bind_eq_some_iff.mp h
          cases replace with
          | false => exact ih h
          | true =>
              rw [if_pos rfl] at h
              cases h

/-! ## The document after an import -/

variable {r : CapabilityRegistry} {incoming : List Capability} {writer now : String}

/-- The capabilities that pass the gate. -/
def accepted (incoming : List Capability) (writer : String) : List Capability :=
  incoming.filter fun cap => cap.agent_id = writer

/-- The document after a batch. -/
def importDoc (dates : Dates) (caps : List Capability) (doc : Option Json) : Option Json :=
  ((importEdits dates caps doc).bind (applyEdits doc)).getD doc

theorem change_capabilities (r : CapabilityRegistry)
    (edits : Option Json → Option (List Edit)) :
    (r.change edits).1.capabilities =
      ((edits r.capabilities).bind (applyEdits r.capabilities)).getD r.capabilities := by
  unfold change
  cases hedits : edits r.capabilities with
  | none => rfl
  | some es =>
      rw [Option.bind_some, Option.bind_some]
      cases applyEdits r.capabilities es <;> rfl

theorem importPeerCapabilities_capabilities (dates : Dates) (r : CapabilityRegistry)
    (incoming : List Capability) (writer now : String) :
    (importPeerCapabilities dates r incoming writer now).1.capabilities =
      importDoc dates (accepted incoming writer) r.capabilities := by
  unfold importPeerCapabilities
  dsimp only
  split
  · next r' hchange =>
      have hdoc := congrArg (fun changed => changed.1.capabilities) hchange
      exact hdoc.symm.trans (change_capabilities _ _)
  · next r' edits hchange =>
      have hdoc := congrArg (fun changed => changed.1.capabilities) hchange
      rw [foldl_capabilities]
      · exact hdoc.symm.trans (change_capabilities _ _)
      · intro r cap
        split <;> rfl

theorem importDoc_of_readable (h : BatchReadable dates caps fields) :
    ∃ fields', importDoc dates caps (some (.object fields)) = some (.object fields') ∧
      ∀ key, lookup fields' key = entryAfter dates caps fields key := by
  obtain ⟨edits, fields', hedits, happly, hafter⟩ := importEdits_of_readable h
  refine ⟨fields', ?_, hafter⟩
  rw [importDoc, hedits, Option.bind_some, happly]
  rfl

theorem importDoc_of_not_readable (h : ¬ BatchReadable dates caps fields) :
    importDoc dates caps (some (.object fields)) = some (.object fields) := by
  rw [importDoc, importEdits_of_not_readable h]
  rfl

theorem importDoc_of_not_object {doc : Option Json} (h : ∀ fields, doc ≠ some (.object fields)) :
    importDoc dates caps doc = doc := by
  unfold importDoc
  cases hedits : importEdits dates caps doc with
  | none => rfl
  | some edits =>
      have hnil : edits = [] := by
        cases doc with
        | none =>
            cases caps with
            | nil => exact (Option.some.inj hedits).symm
            | cons => cases hedits
        | some value => exact importEdits_of_not_object (fun fields hv => h fields (hv ▸ rfl)) hedits
      rw [hnil]
      rfl

theorem readable_entryAfter {key : String} (h : Readable dates (lookup fields key)) :
    Readable dates (entryAfter dates caps fields key) := by
  unfold entryAfter Freshness.takeAll
  generalize caps.filter (·.key = key) = offers
  generalize lookup fields key = existing at h ⊢
  induction offers generalizing existing with
  | nil => exact h
  | cons cap offers ih => exact ih _ (readable_take h)

theorem entryAfter_of_notMem {key : String} (h : ∀ cap ∈ caps, cap.key ≠ key) :
    entryAfter dates caps fields key = lookup fields key := by
  have hnone : caps.filter (·.key = key) = [] := by
    rw [List.filter_eq_nil_iff]
    exact fun cap hcap => by simpa using h cap hcap
  rw [entryAfter, hnone]
  rfl

/-- The value under a key of the document. -/
def docEntry (doc : Option Json) (key : String) : Option Json := doc.bind (·.element key)

/-- A batch touches the entries under its keys. -/
theorem docEntry_importDoc {key : String} (h : ∀ cap ∈ caps, cap.key ≠ key) (doc : Option Json) :
    docEntry (importDoc dates caps doc) key = docEntry doc key := by
  by_cases hobject : ∃ fields, doc = some (.object fields)
  · obtain ⟨fields, rfl⟩ := hobject
    by_cases hread : BatchReadable dates caps fields
    · obtain ⟨fields', hdoc, hafter⟩ := importDoc_of_readable hread
      rw [hdoc]
      exact (hafter key).trans (entryAfter_of_notMem h)
    · rw [importDoc_of_not_readable hread]
  · rw [importDoc_of_not_object (not_exists.mp hobject)]

/-- Capabilities that are no fresher than the entries write nothing. -/
theorem importEdits_eq_nil
    (h : ∀ cap ∈ caps, replaces dates cap (lookup fields cap.key) = some false) :
    importEdits dates caps (some (.object fields)) = some [] := by
  induction caps with
  | nil => rfl
  | cons cap caps ih =>
      have hfirst := h cap List.mem_cons_self
      rw [importEdits_object, show makeKey cap.agent_id cap.skill_id = cap.key from rfl, hfirst]
      exact ih fun cap' hcap' => h cap' (List.mem_cons_of_mem _ hcap')

theorem importDoc_importDoc (dates : Dates) (caps : List Capability) (doc : Option Json) :
    importDoc dates caps (importDoc dates caps doc) = importDoc dates caps doc := by
  by_cases hobject : ∃ fields, doc = some (.object fields)
  · obtain ⟨fields, rfl⟩ := hobject
    by_cases hread : BatchReadable dates caps fields
    · obtain ⟨fields', hdoc, hafter⟩ := importDoc_of_readable hread
      have hbeaten : ∀ cap ∈ caps, replaces dates cap (lookup fields' cap.key) = some false := by
        intro cap hcap
        have hreadable : (replaces dates cap (lookup fields' cap.key)).isSome := by
          rw [hafter]
          exact replaces_isSome.mpr (readable_entryAfter (hread cap hcap))
        have hoffer : cap ∈ caps.filter (·.key = cap.key) :=
          List.mem_filter.mpr ⟨hcap, decide_eq_true rfl⟩
        have hbeats : (entryCell dates).beats cap (lookup fields' cap.key) = false := by
          rw [hafter]
          exact Freshness.beats_takeAll_of_mem hoffer
        have hnot := of_decide_eq_false hbeats
        obtain ⟨replace, hreplace⟩ := Option.isSome_iff_exists.mp hreadable
        cases replace with
        | false => exact hreplace
        | true => exact absurd hreplace hnot
      rw [hdoc, importDoc, importEdits_eq_nil hbeaten]
      rfl
    · rw [importDoc_of_not_readable hread, importDoc_of_not_readable hread]
  · have hsame : importDoc dates caps doc = doc := importDoc_of_not_object (not_exists.mp hobject)
    rw [hsame, hsame]

/-! ## Two batches -/

/-- The capabilities have dates, and those of one skill have different ones. -/
structure DistinctDates (dates : Dates) (caps : List Capability) : Prop where
  valid : ∀ cap ∈ caps, (dates.ofText cap.updated_at).isSome
  distinct : caps.Pairwise fun a b =>
    a.skill_id = b.skill_id → dates.ofText a.updated_at ≠ dates.ofText b.updated_at

theorem makeKey_right_injective {agentId skill skill' : String}
    (h : makeKey agentId skill = makeKey agentId skill') : skill = skill' := by
  have htexts := congrArg String.toList h
  simp only [makeKey, String.toList_append] at htexts
  exact String.toList_injective (List.append_cancel_left htexts)

theorem DistinctDates.fresher {writer : String} (h : DistinctDates dates caps)
    (howner : ∀ cap ∈ caps, cap.agent_id = writer) {a b : Capability} (ha : a ∈ caps)
    (hb : b ∈ caps) (hkey : a.key = b.key) :
    a = b ∨ (entryCell dates).beats a ((entryCell dates).held b) = true ∨
      (entryCell dates).beats b ((entryCell dates).held a) = true := by
  by_cases hab : a = b
  · exact .inl hab
  · have hskill : a.skill_id = b.skill_id := by
      unfold Capability.key at hkey
      rw [howner a ha, howner b hb] at hkey
      exact makeKey_right_injective hkey
    have hne : dates.ofText a.updated_at ≠ dates.ofText b.updated_at := by
      have hsymm : Std.Symm fun a b : Capability =>
          a.skill_id = b.skill_id → dates.ofText a.updated_at ≠ dates.ofText b.updated_at :=
        ⟨fun _ _ hxy hskill => (hxy hskill.symm).symm⟩
      exact h.distinct.forall ha hb hab hskill
    have hbeats : ∀ {a b : Capability},
        laterThan (dates.ofText a.updated_at) (dates.ofText b.updated_at) = true →
          (entryCell dates).beats a ((entryCell dates).held b) = true := by
      intro a b hlater
      refine decide_eq_true ?_
      rw [← hlater]
      exact replaces_entry dates a b
    exact .inr ((laterThan_total (h.valid a ha) (h.valid b hb) hne).imp hbeats hbeats)

theorem accepted_append (incoming incoming' : List Capability) (writer : String) :
    accepted (incoming ++ incoming') writer = accepted incoming writer ++ accepted incoming' writer :=
  List.filter_append _ _

theorem owner_of_accepted {cap : Capability} (h : cap ∈ accepted incoming writer) :
    cap.agent_id = writer := of_decide_eq_true (List.mem_filter.mp h).2

/-- The entry after two batches that can be compared. -/
theorem entryAfter_append {caps' : List Capability}
    (hafter : ∀ key, lookup fields' key = entryAfter dates caps fields key) (key : String) :
    entryAfter dates caps' fields' key = entryAfter dates (caps ++ caps') fields key := by
  unfold entryAfter
  rw [hafter, List.filter_append, Freshness.takeAll_append]
  rfl

theorem batchReadable_iff_after {caps' : List Capability}
    (hafter : ∀ key, lookup fields' key = entryAfter dates caps fields key)
    (hread : BatchReadable dates caps fields) :
    BatchReadable dates caps' fields' ↔ BatchReadable dates caps' fields := by
  constructor
  · intro h cap hcap
    by_cases hwritten : ∃ cap' ∈ caps, cap'.key = cap.key
    · obtain ⟨cap', hcap', hkey⟩ := hwritten
      rw [← hkey]
      exact hread cap' hcap'
    · have hother : ∀ cap' ∈ caps, cap'.key ≠ cap.key :=
        fun cap' hcap' hkey => hwritten ⟨cap', hcap', hkey⟩
      have hsame := h cap hcap
      rwa [hafter, entryAfter_of_notMem hother] at hsame
  · intro h cap hcap
    rw [hafter]
    exact readable_entryAfter (h cap hcap)

/-- Two batches of a writer give the same document in either order. -/
theorem importDoc_comm {batch batch' : List Capability}
    (howner : ∀ cap ∈ batch ++ batch', cap.agent_id = writer)
    (hdates : DistinctDates dates (batch ++ batch')) (doc : Option Json) :
    Agree (importDoc dates batch' (importDoc dates batch doc))
      (importDoc dates batch (importDoc dates batch' doc)) := by
  by_cases hobject : ∃ fields, doc = some (.object fields)
  · obtain ⟨fields, rfl⟩ := hobject
    by_cases hread : BatchReadable dates batch fields
    · obtain ⟨fields₁, hdoc₁, hafter₁⟩ := importDoc_of_readable hread
      rw [hdoc₁]
      by_cases hread' : BatchReadable dates batch' fields
      · obtain ⟨fields₂, hdoc₂, hafter₂⟩ := importDoc_of_readable hread'
        obtain ⟨fields₃, hdoc₃, hafter₃⟩ :=
          importDoc_of_readable ((batchReadable_iff_after hafter₁ hread).mpr hread')
        obtain ⟨fields₄, hdoc₄, hafter₄⟩ :=
          importDoc_of_readable ((batchReadable_iff_after hafter₂ hread').mpr hread)
        rw [hdoc₂, hdoc₃, hdoc₄]
        refine .inr ⟨fields₃, fields₄, rfl, rfl, fun key => ?_⟩
        rw [hafter₃, hafter₄, entryAfter_append hafter₁, entryAfter_append hafter₂]
        -- the two lists of offers to the cell are permutations of each other
        refine Freshness.takeAll_perm (List.perm_append_comm.filter _) fun a ha b hb => ?_
        obtain ⟨ha, hkeyA⟩ := List.mem_filter.mp ha
        obtain ⟨hb, hkeyB⟩ := List.mem_filter.mp hb
        exact hdates.fresher howner ha hb
          ((of_decide_eq_true hkeyA).trans (of_decide_eq_true hkeyB).symm)
      · have hthrown : ¬ BatchReadable dates batch' fields₁ :=
          fun h => hread' ((batchReadable_iff_after hafter₁ hread).mp h)
        rw [importDoc_of_not_readable hthrown, importDoc_of_not_readable hread', hdoc₁]
        exact .inl rfl
    · rw [importDoc_of_not_readable hread]
      by_cases hread' : BatchReadable dates batch' fields
      · obtain ⟨fields₂, hdoc₂, hafter₂⟩ := importDoc_of_readable hread'
        have hthrown : ¬ BatchReadable dates batch fields₂ :=
          fun h => hread ((batchReadable_iff_after hafter₂ hread').mp h)
        rw [hdoc₂, importDoc_of_not_readable hthrown]
        exact .inl rfl
      · rw [importDoc_of_not_readable hread', importDoc_of_not_readable hread]
        exact .inl rfl
  · have hsame : ∀ caps, importDoc dates caps doc = doc :=
      fun caps => importDoc_of_not_object (not_exists.mp hobject)
    simp only [hsame]
    exact .inl rfl

/-! ## The records after an import -/

/-- The record of the last capability under the key that carries one. -/
def lastRecord (caps : List Capability) (now key : String) : Option AvailabilityRecord :=
  ((caps.filter (·.key = key)).filterMap (incomingAvailability · now)).getLast?

/-- What of a record does not depend on the clock. -/
def AvailabilityRecord.unstamped (record : AvailabilityRecord) : Availability × String :=
  (record.availability, record.consecutive_failures)

/-- The capability says itself when its availability was checked. -/
def Stamped (cap : Capability) : Prop :=
  ∃ text, lookup cap.extra "last_checked_at" = some (.string text)

theorem incomingAvailability_unstamped (cap : Capability) (now now' : String) :
    (incomingAvailability cap now).map AvailabilityRecord.unstamped =
      (incomingAvailability cap now').map AvailabilityRecord.unstamped := by
  unfold incomingAvailability
  rw [Option.map_map, Option.map_map]
  rfl

theorem incomingAvailability_of_stamped {cap : Capability} (h : Stamped cap) (now now' : String) :
    incomingAvailability cap now = incomingAvailability cap now' := by
  obtain ⟨text, htext⟩ := h
  unfold incomingAvailability
  rw [htext]

theorem get_importRecords (caps : List Capability) (now key : String) (r : CapabilityRegistry) :
    (caps.foldl (fun (r : CapabilityRegistry) (cap : Capability) =>
      match incomingAvailability cap now with
      | none => r
      | some record => (r.setAvailability cap.agent_id cap.skill_id record).1) r).availability.get
        key = (lastRecord caps now key).or (r.availability.get key) := by
  induction caps generalizing r with
  | nil => rfl
  | cons cap caps ih =>
      rw [List.foldl_cons, ih]
      -- the last record for the key wins
      by_cases hkey : cap.key = key
      · have hlast : lastRecord (cap :: caps) now key =
            (lastRecord caps now key).or (incomingAvailability cap now) := by
          unfold lastRecord
          rw [List.filter_cons, if_pos (decide_eq_true hkey), List.filterMap_cons]
          cases incomingAvailability cap now with
          | none => exact (Option.or_none).symm
          | some record =>
              rw [List.getLast?_cons]
              cases (List.filterMap _ _).getLast? <;> rfl
        rw [hlast, Option.or_assoc]
        cases incomingAvailability cap now with
        | none => rfl
        | some record =>
            have hset : ((r.setAvailability cap.agent_id cap.skill_id record).1).availability.get
                key = some record := hkey ▸ InsertionMap.get_set_self _ _ _
            rw [hset]
            rfl
      · have hlast : lastRecord (cap :: caps) now key = lastRecord caps now key := by
          unfold lastRecord
          rw [List.filter_cons, if_neg (by simpa using hkey)]
        rw [hlast]
        cases incomingAvailability cap now with
        | none => rfl
        | some record =>
            have hset : ((r.setAvailability cap.agent_id cap.skill_id record).1).availability.get
                key = r.availability.get key := InsertionMap.get_set_of_ne _ _ (Ne.symm hkey)
            rw [hset]

theorem change_availability (r : CapabilityRegistry)
    (edits : Option Json → Option (List Edit)) :
    (r.change edits).1.availability = r.availability ∧
      ((r.change edits).2 = none ↔
        (edits r.capabilities).bind (applyEdits r.capabilities) = none) := by
  unfold change
  cases edits r.capabilities with
  | none => exact ⟨rfl, iff_of_true rfl rfl⟩
  | some es =>
      rw [Option.bind_some, Option.bind_some]
      cases applyEdits r.capabilities es with
      | none => exact ⟨rfl, iff_of_true rfl rfl⟩
      | some doc => exact ⟨rfl, iff_of_false nofun nofun⟩

/-- The batch cannot be written, and the import throws. -/
def ImportThrows (dates : Dates) (caps : List Capability) (doc : Option Json) : Prop :=
  (importEdits dates caps doc).bind (applyEdits doc) = none

/-- The records after an import: those of before if it throws, else those of the batch first. -/
theorem get_availability_import (dates : Dates) (r : CapabilityRegistry)
    (incoming : List Capability) (writer now key : String) :
    (ImportThrows dates (accepted incoming writer) r.capabilities ∧
      (importPeerCapabilities dates r incoming writer now).1.availability = r.availability) ∨
    (¬ ImportThrows dates (accepted incoming writer) r.capabilities ∧
      (importPeerCapabilities dates r incoming writer now).1.availability.get key =
        (lastRecord (accepted incoming writer) now key).or (r.availability.get key)) := by
  unfold importPeerCapabilities
  dsimp only
  split
  · next r' hchange =>
      obtain ⟨havailability, hnone⟩ := change_availability { r with
        rejectedForeignWrites := r.rejectedForeignWrites +
          (incoming.filter fun cap => cap.agent_id ≠ writer).length }
        (importEdits dates (accepted incoming writer))
      exact .inl ⟨hnone.mp (congrArg Prod.snd hchange),
        (congrArg (fun changed => changed.1.availability) hchange).symm.trans havailability⟩
  · next r' edits hchange =>
      obtain ⟨havailability, hnone⟩ := change_availability { r with
        rejectedForeignWrites := r.rejectedForeignWrites +
          (incoming.filter fun cap => cap.agent_id ≠ writer).length }
        (importEdits dates (accepted incoming writer))
      refine .inr ⟨fun hthrows => ?_, ?_⟩
      · have hsnd := (hnone.mpr hthrows).symm.trans (congrArg Prod.snd hchange)
        cases hsnd
      · have hbefore : r'.availability = r.availability :=
          (congrArg (fun changed => changed.1.availability) hchange).symm.trans havailability
        have hafter := get_importRecords (accepted incoming writer) now key r'
        rw [hbefore] at hafter
        exact hafter

theorem importThrows_object :
    ImportThrows dates caps (some (.object fields)) ↔ ¬ BatchReadable dates caps fields := by
  by_cases hread : BatchReadable dates caps fields
  · obtain ⟨edits, fields', hedits, happly, -⟩ := importEdits_of_readable hread
    rw [ImportThrows, hedits, Option.bind_some, happly]
    exact iff_of_false nofun (not_not.mpr hread)
  · rw [ImportThrows, importEdits_of_not_readable hread]
    exact iff_of_true rfl hread

/-- A batch throws the second time if it throws the first time. -/
theorem importThrows_importDoc (dates : Dates) (caps : List Capability) (doc : Option Json) :
    ImportThrows dates caps (importDoc dates caps doc) ↔ ImportThrows dates caps doc := by
  by_cases hobject : ∃ fields, doc = some (.object fields)
  · obtain ⟨fields, rfl⟩ := hobject
    by_cases hread : BatchReadable dates caps fields
    · obtain ⟨fields', hdoc, hafter⟩ := importDoc_of_readable hread
      rw [hdoc, importThrows_object, importThrows_object, batchReadable_iff_after hafter hread]
    · rw [importDoc_of_not_readable hread]
  · rw [importDoc_of_not_object (not_exists.mp hobject)]

theorem lastRecord_unstamped (caps : List Capability) (now now' key : String) :
    (lastRecord caps now key).map AvailabilityRecord.unstamped =
      (lastRecord caps now' key).map AvailabilityRecord.unstamped := by
  unfold lastRecord
  rw [← List.getLast?_map, ← List.getLast?_map, List.map_filterMap, List.map_filterMap]
  simp only [incomingAvailability_unstamped _ now now']

theorem lastRecord_of_stamped {key : String} (h : ∀ cap ∈ caps, cap.key = key → Stamped cap)
    (now now' : String) : lastRecord caps now key = lastRecord caps now' key := by
  unfold lastRecord
  congr 1
  refine List.filterMap_congr fun cap hcap => ?_
  obtain ⟨hmem, hkey⟩ := List.mem_filter.mp hcap
  exact incomingAvailability_of_stamped (h cap hmem (of_decide_eq_true hkey)) now now'

theorem lastRecord_of_notMem {key : String} (h : ∀ cap ∈ caps, cap.key ≠ key) (now : String) :
    lastRecord caps now key = none := by
  have hnone : caps.filter (·.key = key) = [] := by
    rw [List.filter_eq_nil_iff]
    exact fun cap hcap => by simpa using h cap hcap
  rw [lastRecord, hnone]
  rfl

/-! ## The gate and the order -/

/-- An import touches the keys of its writer only. -/
theorem import_frame {key : String} (hkey : ∀ skill, key ≠ makeKey writer skill) :
    docEntry (importPeerCapabilities dates r incoming writer now).1.capabilities key =
        docEntry r.capabilities key ∧
      (importPeerCapabilities dates r incoming writer now).1.availability.get key =
        r.availability.get key := by
  have hother : ∀ cap ∈ accepted incoming writer, cap.key ≠ key := by
    intro cap hcap heq
    refine hkey cap.skill_id ?_
    rw [← heq, Capability.key, owner_of_accepted hcap]
  constructor
  · rw [importPeerCapabilities_capabilities, docEntry_importDoc hother]
  · rcases get_availability_import dates r incoming writer now key with ⟨-, hsame⟩ | ⟨-, hget⟩
    · rw [hsame]
    · rw [hget, lastRecord_of_notMem hother]
      rfl

/-- The same batch once more leaves the document and, up to the clock, the records. -/
theorem import_import (now' : String) :
    let once := (importPeerCapabilities dates r incoming writer now).1
    let twice := (importPeerCapabilities dates once incoming writer now').1
    twice.capabilities = once.capabilities ∧ ∀ key,
      (twice.availability.get key).map AvailabilityRecord.unstamped =
        (once.availability.get key).map AvailabilityRecord.unstamped ∧
      ((∀ cap ∈ incoming, cap.agent_id = writer → cap.key = key → Stamped cap) →
        twice.availability.get key = once.availability.get key) := by
  intro once twice
  have honce : once.capabilities = importDoc dates (accepted incoming writer) r.capabilities :=
    importPeerCapabilities_capabilities dates r incoming writer now
  have htwice : twice.capabilities =
      importDoc dates (accepted incoming writer) once.capabilities :=
    importPeerCapabilities_capabilities dates once incoming writer now'
  refine ⟨by rw [htwice, honce, importDoc_importDoc], fun key => ?_⟩
  have hthrows := importThrows_importDoc dates (accepted incoming writer) r.capabilities
  rw [← honce] at hthrows
  -- the second import throws exactly if the first one did
  rcases get_availability_import dates once incoming writer now' key with
    ⟨-, hsame⟩ | ⟨hgoes, htwice⟩
  · have hget : twice.availability.get key = once.availability.get key :=
      congrArg (fun records => records.get key) hsame
    exact ⟨by rw [hget], fun _ => hget⟩
  · rcases get_availability_import dates r incoming writer now key with
      ⟨hthrown, -⟩ | ⟨-, honce⟩
    · exact absurd (hthrows.mpr hthrown) hgoes
    · -- the two records differ at most in the times that the clock gave them
      have hunstamped := lastRecord_unstamped (accepted incoming writer) now' now key
      constructor
      · rw [htwice, honce]
        cases hnew : lastRecord (accepted incoming writer) now' key <;>
          cases hold : lastRecord (accepted incoming writer) now key <;>
          rw [hnew, hold] at hunstamped
        · rfl
        · cases hunstamped
        · cases hunstamped
        · exact hunstamped
      · intro hstamped
        have hlast : lastRecord (accepted incoming writer) now' key =
            lastRecord (accepted incoming writer) now key :=
          lastRecord_of_stamped (fun cap hcap hkey => hstamped cap (List.mem_filter.mp hcap).1
            (owner_of_accepted hcap) hkey) now' now
        rw [htwice, honce, hlast]
        cases lastRecord (accepted incoming writer) now key <;> rfl

/-- Only keys of the writer change, the same batch once more changes at most when something was
checked, and batches with different dates for each skill may come in either order. -/
theorem importPeerCapabilities_gate_order (dates : Dates) (r : CapabilityRegistry)
    (writer : String) :
    (∀ incoming now key, (∀ skill, key ≠ makeKey writer skill) →
      docEntry (importPeerCapabilities dates r incoming writer now).1.capabilities key =
          docEntry r.capabilities key ∧
        (importPeerCapabilities dates r incoming writer now).1.availability.get key =
          r.availability.get key) ∧
    (∀ incoming now now',
      let once := (importPeerCapabilities dates r incoming writer now).1
      let twice := (importPeerCapabilities dates once incoming writer now').1
      twice.capabilities = once.capabilities ∧ ∀ key,
        (twice.availability.get key).map AvailabilityRecord.unstamped =
          (once.availability.get key).map AvailabilityRecord.unstamped ∧
        ((∀ cap ∈ incoming, cap.agent_id = writer → cap.key = key → Stamped cap) →
          twice.availability.get key = once.availability.get key)) ∧
    ∀ incoming incoming' now now', DistinctDates dates (accepted (incoming ++ incoming') writer) →
      Agree
        (importPeerCapabilities dates (importPeerCapabilities dates r incoming writer now).1
          incoming' writer now').1.capabilities
        (importPeerCapabilities dates (importPeerCapabilities dates r incoming' writer now').1
          incoming writer now).1.capabilities := by
  refine ⟨fun incoming now key hkey => import_frame hkey, fun incoming now now' => import_import now',
    fun incoming incoming' now now' hdates => ?_⟩
  rw [accepted_append] at hdates
  -- the gate keeps the states of the writer only
  have howner : ∀ cap ∈ accepted incoming writer ++ accepted incoming' writer,
      cap.agent_id = writer := by
    intro cap hcap
    rcases List.mem_append.mp hcap with hcap | hcap
    · exact owner_of_accepted hcap
    · exact owner_of_accepted hcap
  simp only [importPeerCapabilities_capabilities]
  exact importDoc_comm howner hdates r.capabilities

/-- A capability whose availability has no time. -/
def unstampedCapability (agentId skillId updatedAt : String) : Capability where
  skill_id := skillId
  version := "1.0.0"
  description := ""
  agent_id := agentId
  health := .healthy
  trust_level := 3
  updated_at := updatedAt
  category := ""
  permissions := []
  extra := [("availability", .string "unhealthy")]

/-- The dates of two texts. -/
def twoDates : Dates where
  ofText := fun text => if text = "1" then some 1 else if text = "2" then some 2 else none
  ofNumber := fun _ => none
  ofProxy := fun _ => some none

/-- The registry with one entry of the agent `A::B`. -/
def nestedRegistry : CapabilityRegistry where
  capabilities := some (.object [("A::B::s", (unstampedCapability "A::B" "s" "1").entry)])
  availability := .empty
  rejectedForeignWrites := 0

/-- The writer `A` replaces the entry of `A::B`, and sets its record; the second import moves the
time of the check. -/
theorem nested_entry_replaced :
    Json.isString (Json.propertyOrUndefined (docEntry (importPeerCapabilities twoDates
      nestedRegistry [unstampedCapability "A" "B::s" "2"] "A" "3").1.capabilities
        (makeKey "A::B" "s")) "agent_id") "A" = true ∧
    (¬ ∀ (r : CapabilityRegistry) writer incoming now agent skill, agent ≠ writer →
      docEntry (importPeerCapabilities twoDates r incoming writer now).1.capabilities
          (makeKey agent skill) = docEntry r.capabilities (makeKey agent skill) ∧
        (importPeerCapabilities twoDates r incoming writer now).1.availability.get
          (makeKey agent skill) = r.availability.get (makeKey agent skill)) ∧
    ¬ ∀ (r : CapabilityRegistry) writer incoming now now' key,
      let once := (importPeerCapabilities twoDates r incoming writer now).1
      (importPeerCapabilities twoDates once incoming writer now').1.availability.get key =
        once.availability.get key := by
  refine ⟨by decide +kernel, ?_, ?_⟩
  · intro hall
    have hrecord := (hall nestedRegistry "A" [unstampedCapability "A" "B::s" "2"] "3" "A::B" "s"
      (by decide)).2
    revert hrecord
    decide +kernel
  · intro hall
    have hrecord := hall .fresh "A" [unstampedCapability "A" "s" "2"] "3" "4" "A::s"
    revert hrecord
    decide +kernel

end ThinkLocal.Registry
