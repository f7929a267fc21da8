import ThinkLocal.Audit.AuditLog
import ThinkLocal.Js.Utf16

/-!
# What the bytes of an event say about it

The fields of an event are joined by `|`, null is written as the empty text, and a half of a
surrogate pair that stands alone as U+FFFD.  So the bytes of an event are its own exactly if it has
nothing of that: no `|` in a field, no optional field that is null or empty, and no U+FFFD.
-/

namespace ThinkLocal.Audit

open Foundation Js

/-- An event as `append` and `importPeerEvent` take it; null is `none`. -/
structure SubmittedEvent where
  timestamp : CodeUnits
  event_type : CodeUnits
  agent_id : CodeUnits
  peer_id : Option CodeUnits
  details : Option CodeUnits
  entity_type : Option CodeUnits
  entity_id : Option CodeUnits
deriving DecidableEq

/-- The code unit of `|`. -/
def BAR : UInt16 := 124

namespace SubmittedEvent

def optionals (event : SubmittedEvent) : List (Option CodeUnits) :=
  [event.peer_id, event.details, event.entity_type, event.entity_id]

def fields (event : SubmittedEvent) : List CodeUnits :=
  [event.timestamp, event.event_type, event.agent_id] ++
    event.optionals.map fun field => field.getD []

/-- What is signed. -/
def signedBytes (event : SubmittedEvent) : Bytes := utf8Bytes ([BAR].intercalate event.fields)

/-- What is hashed. -/
def hashedBytes (event : SubmittedEvent) (signature prevHash : CodeUnits) : Bytes :=
  utf8Bytes ([BAR].intercalate (event.fields ++ [signature, prevHash]))

/-- What the database keeps of an event. -/
def stored (event : SubmittedEvent) : AuditEvent where
  timestamp := text event.timestamp
  event_type := text event.event_type
  agent_id := text event.agent_id
  peer_id := event.peer_id.map text
  details := event.details.map text
  entity_type := event.entity_type.map text
  entity_id := event.entity_id.map text
where
  text (field : CodeUnits) : String := String.ofList (toWellFormed field)

end SubmittedEvent

variable {event other : SubmittedEvent}

/-! ## The bytes of a stored event -/

theorem toWellFormed_joined (parts : List CodeUnits) :
    toWellFormed ([BAR].intercalate parts) = ['|'].intercalate (parts.map toWellFormed) :=
  toWellFormed_intercalate (by decide) parts

theorem fields_stored (event : SubmittedEvent) :
    event.stored.fields.map String.toList = event.fields.map toWellFormed := by
  have hgetD : ∀ field : Option CodeUnits,
      ((field.map SubmittedEvent.stored.text).getD "").toList = toWellFormed (field.getD []) := by
    rintro (_ | field)
    · rfl
    · exact String.toList_ofList
  simp [AuditEvent.fields, SubmittedEvent.fields, SubmittedEvent.optionals, SubmittedEvent.stored,
    hgetD, SubmittedEvent.stored.text]

/-- An event is signed as what the database keeps of it. -/
theorem signedBytes_stored (event : SubmittedEvent) :
    signedBytes event.stored = event.signedBytes := by
  rw [signedBytes, SubmittedEvent.signedBytes, utf8Bytes, toWellFormed_joined, ← fields_stored,
    joinSegments, String.toList_ofList]

theorem hashedBytes_stored (event : SubmittedEvent) (signature prevHash : String) :
    hashedBytes event.stored signature prevHash =
      event.hashedBytes (codeUnitsOf signature.toList) (codeUnitsOf prevHash.toList) := by
  rw [hashedBytes, SubmittedEvent.hashedBytes, utf8Bytes, toWellFormed_joined, joinSegments,
    String.toList_ofList, List.map_append, List.map_append, fields_stored]
  simp

/-! ## Events that are told apart -/

/-- A signature is valid for one content at most. -/
def OneContent (K : Crypto) : Prop :=
  ∀ key content content' sig, K.verifySignature key content sig = some true →
    K.verifySignature key content' sig = some true → content = content'

/-- The bytes of two different events differ, and the signature of one does not import the
other. -/
structure Separated (event other : SubmittedEvent) : Prop where
  signed : event ≠ other → event.signedBytes ≠ other.signedBytes
  hashed : event ≠ other → ∀ (sig sig' : Bytes) (prevHash prevHash' : String),
    '|' ∉ prevHash.toList → '|' ∉ prevHash'.toList →
      event.hashedBytes (codeUnitsOf (toBase64 sig).toList) (codeUnitsOf prevHash.toList) ≠
        other.hashedBytes (codeUnitsOf (toBase64 sig').toList) (codeUnitsOf prevHash'.toList)
  rejected : event ≠ other → ∀ (K : Crypto) (log : AuditLog) (key signature entry_hash : String),
    OneContent K → key ≠ "" →
      K.verifySignature key event.signedBytes (fromBase64 signature) = some true →
        (log.importPeerEvent K ⟨other.stored, signature, entry_hash⟩ (some key)).2 = false

/-- The fields have no `|` and their texts no U+FFFD, which stands for itself or for a half of a
surrogate pair. -/
structure SubmittedEvent.Plain (event : SubmittedEvent) : Prop where
  bar : ∀ field ∈ event.fields, BAR ∉ field
  whole : ∀ field ∈ event.fields, replacementCharacter ∉ toWellFormed field

/-- No optional field is null or empty. -/
def SubmittedEvent.Filled (event : SubmittedEvent) : Prop :=
  ∀ field ∈ event.optionals, field ≠ none ∧ field ≠ some []

/-- No optional field is null in the one event and empty in the other. -/
def SubmittedEvent.SameBlanks (event other : SubmittedEvent) : Prop :=
  ∀ pair ∈ event.optionals.zip other.optionals, pair.1.getD [] = [] → pair.2.getD [] = [] →
    pair.1 = pair.2

theorem SubmittedEvent.Filled.sameBlanks (h : event.Filled) (other : SubmittedEvent) :
    event.SameBlanks other := by
  rintro ⟨a, b⟩ hpair hblank
  obtain ⟨hnone, hempty⟩ := h a (List.of_mem_zip hpair).1
  cases a with
  | none => exact absurd rfl hnone
  | some text => exact absurd (congrArg some hblank) hempty

/-- The fields of an event tell it, up to null and the empty text. -/
theorem eq_of_fields (hblanks : event.SameBlanks other) (h : event.fields = other.fields) :
    event = other := by
  have hoption : ∀ pair ∈ event.optionals.zip other.optionals,
      pair.1.getD [] = pair.2.getD [] → pair.1 = pair.2 := by
    rintro ⟨a, b⟩ hpair hab
    cases a with
    | none => exact hblanks _ hpair rfl hab.symm
    | some text =>
        cases b with
        | none => exact hblanks _ hpair hab rfl
        | some text' => exact congrArg some hab
  simp only [SubmittedEvent.fields, SubmittedEvent.optionals, List.map_cons, List.map_nil,
    List.cons_append, List.nil_append, List.cons.injEq, and_true] at h
  simp only [SubmittedEvent.optionals, List.zip_cons_cons, List.zip_nil_left, List.mem_cons,
    List.not_mem_nil, or_false, forall_eq_or_imp, forall_eq] at hoption
  obtain ⟨htime, htype, hagent, hpeer, hdetails, hentity, hid⟩ := h
  obtain ⟨hpeer', hdetails', hentity', hid'⟩ := hoption
  cases event
  cases other
  simp only [SubmittedEvent.mk.injEq]
  exact ⟨htime, htype, hagent, hpeer' hpeer, hdetails' hdetails, hentity' hentity, hid' hid⟩

/-- Texts without U+FFFD are told by their well-formed texts. -/
theorem eq_of_map_toWellFormed {parts parts' : List CodeUnits}
    (h : ∀ part ∈ parts, replacementCharacter ∉ toWellFormed part)
    (heq : parts.map toWellFormed = parts'.map toWellFormed) : parts = parts' := by
  induction parts generalizing parts' with
  | nil => exact (List.map_eq_nil_iff.mp heq.symm).symm
  | cons part parts ih =>
      cases parts' with
      | nil => cases heq
      | cons part' parts' =>
          obtain ⟨hpart, hparts⟩ := List.cons.inj heq
          rw [eq_of_toWellFormed_eq (h part List.mem_cons_self) hpart,
            ih (fun other hother => h other (List.mem_cons_of_mem _ hother)) hparts]

/-- A plain event is told by bytes that begin with its fields. -/
theorem SubmittedEvent.Plain.eq_of_utf8Bytes (h : event.Plain) (hblanks : event.SameBlanks other)
    (more more' : List CodeUnits) (hmore : ∀ part ∈ more, BAR ∉ part)
    (hlength : more.length = more'.length)
    (heq : utf8Bytes ([BAR].intercalate (event.fields ++ more)) =
      utf8Bytes ([BAR].intercalate (other.fields ++ more'))) : event = other := by
  have htext := encodeUtf8_injective heq
  rw [toWellFormed_joined, toWellFormed_joined] at htext
  have hbar : ∀ part ∈ (event.fields ++ more).map toWellFormed, '|' ∉ part := by
    intro part hpart hmem
    obtain ⟨field, hfield, rfl⟩ := List.mem_map.mp hpart
    have hin : BAR ∈ field := mem_of_mem_toWellFormed (by decide) (by decide) hmem
    rcases List.mem_append.mp hfield with hfield | hfield
    · exact h.bar field hfield hin
    · exact hmore field hfield hin
  have hlengths : ((event.fields ++ more).map toWellFormed).length =
      ((other.fields ++ more').map toWellFormed).length := by
    simp [fields, optionals, hlength]
  have hparts := eq_of_intercalate_eq hbar hlengths htext
  rw [List.map_append, List.map_append] at hparts
  obtain ⟨hfields, -⟩ := List.append_inj hparts (by simp [fields, optionals])
  exact eq_of_fields hblanks (eq_of_map_toWellFormed h.whole hfields)

/-- An event whose signature is not valid is not imported. -/
theorem importPeerEvent_of_invalid {K : Crypto} {log : AuditLog} {peer : AuditLog.PeerEvent}
    {key : String} (hkey : key ≠ "") (h : AuditLog.signatureValid K peer key = false) :
    (log.importPeerEvent K peer (some key)).2 = false := by
  have hchecked : ((some key).filter fun key => decide (key ≠ "")) = some key :=
    Option.filter_eq_some_iff.mpr ⟨rfl, decide_eq_true hkey⟩
  rw [AuditLog.importPeerEvent, hchecked, Option.any_some, h, Bool.not_false, if_pos rfl]

theorem bar_notMem_toBase64 (bytes : Bytes) : '|' ∉ (toBase64 bytes).toList := by
  rw [toBase64, String.toList_ofList]
  intro h
  obtain ⟨n, hn⟩ := eq_base64Char_of_mem_encodeChars h
  by_cases hlt : n < 64
  · have hall : ∀ i : Fin 64, '|' ≠ base64Char i := by decide +kernel
    exact hall ⟨n, hlt⟩ hn
  · rw [base64Char_of_le (not_lt.mp hlt)] at hn
    revert hn
    decide

/-- A bar among the code units of a text is one of the text. -/
theorem bar_notMem_codeUnitsOf {text : List Char} (h : '|' ∉ text) : BAR ∉ codeUnitsOf text := by
  intro hmem
  obtain ⟨before, after, hsplit⟩ := List.append_of_mem hmem
  have htext := toWellFormed_codeUnitsOf text
  rw [hsplit, toWellFormed_append_cons (by decide)] at htext
  exact h (htext ▸ List.mem_append_right _ List.mem_cons_self)

/-- A plain event is told apart from every other one with the same blanks. -/
theorem SubmittedEvent.Plain.separated (h : event.Plain) (hblanks : event.SameBlanks other) :
    Separated event other := by
  have hsigned : event ≠ other → event.signedBytes ≠ other.signedBytes := by
    intro hne heq
    refine hne (h.eq_of_utf8Bytes hblanks [] [] (by simp) rfl ?_)
    rw [List.append_nil, List.append_nil]
    exact heq
  refine ⟨hsigned, ?_, ?_⟩
  · intro hne sig sig' prevHash prevHash' hprev hprev' heq
    refine hne (h.eq_of_utf8Bytes hblanks [_, _] [_, _] ?_ (by rfl) heq)
    intro part hpart
    rcases List.mem_pair.mp hpart with rfl | rfl
    · exact bar_notMem_codeUnitsOf (bar_notMem_toBase64 sig)
    · exact bar_notMem_codeUnitsOf hprev
  · intro hne K log key signature entry_hash hone hkey hvalid
    refine importPeerEvent_of_invalid hkey ?_
    rw [AuditLog.signatureValid, signedBytes_stored]
    cases hverify : K.verifySignature key other.signedBytes (fromBase64 signature) with
    | none => rfl
    | some valid =>
        cases valid with
        | false => rfl
        -- the key has signed both, so they are the same
        | true => exact absurd (hone key _ _ _ hvalid hverify) (hsigned hne)

/-! ## Events with the bytes of another one -/

/-- Null for the empty text and the other way round. -/
def flipBlank : Option CodeUnits → Option CodeUnits
  | none => some []
  | some [] => none
  | field => field

def SubmittedEvent.flipBlanks (event : SubmittedEvent) : SubmittedEvent :=
  { event with
    peer_id := flipBlank event.peer_id
    details := flipBlank event.details
    entity_type := flipBlank event.entity_type
    entity_id := flipBlank event.entity_id }

theorem getD_flipBlank : ∀ field, (flipBlank field).getD [] = field.getD []
  | none | some [] | some (_ :: _) => rfl

theorem flipBlank_eq_self : ∀ {field}, flipBlank field = field → field ≠ none ∧ field ≠ some []
  | none, h | some [], h => nomatch h
  | some (_ :: _), _ => ⟨nofun, nofun⟩

theorem fields_flipBlanks (event : SubmittedEvent) : event.flipBlanks.fields = event.fields := by
  simp [SubmittedEvent.fields, SubmittedEvent.optionals, SubmittedEvent.flipBlanks, getD_flipBlank]

theorem filled_of_flipBlanks_eq (h : event.flipBlanks = event) : event.Filled := by
  have hoptionals : ∀ field ∈ event.optionals, flipBlank field = field := by
    have heq := congrArg SubmittedEvent.optionals h
    simp only [SubmittedEvent.optionals, SubmittedEvent.flipBlanks, List.cons.injEq, and_true] at heq
    simpa [SubmittedEvent.optionals] using heq
  exact fun field hfield => flipBlank_eq_self (hoptionals field hfield)

/-- Any seven texts are the fields of an event. -/
theorem exists_fields_eq {parts : List CodeUnits} (h : parts.length = event.fields.length) :
    ∃ other : SubmittedEvent, other.fields = parts := by
  match parts, h with
  | [a, b, c, d, e, f, g], _ => exact ⟨⟨a, b, c, some d, some e, some f, some g⟩, rfl⟩

/-- An event whose bytes are no other's is plain and filled. -/
theorem plain_of_signed (h : ∀ other, event ≠ other → event.signedBytes ≠ other.signedBytes) :
    event.Plain ∧ event.Filled := by
  have hfields : ∀ parts : List CodeUnits, parts.length = event.fields.length →
      parts ≠ event.fields → utf8Bytes ([BAR].intercalate parts) ≠ event.signedBytes := by
    intro parts hlength hne heq
    obtain ⟨other, rfl⟩ := exists_fields_eq hlength
    exact h other (fun hsame => hne (congrArg SubmittedEvent.fields hsame).symm) heq.symm
  refine ⟨⟨fun field hfield hbar => ?_, fun field hfield hhalf => ?_⟩, ?_⟩
  · have htwo : 2 ≤ event.fields.length := by simp [SubmittedEvent.fields, SubmittedEvent.optionals]
    obtain ⟨parts, hne, hlength, heq⟩ := exists_recut htwo hfield hbar
    exact hfields parts hlength hne (congrArg utf8Bytes heq)
  · obtain ⟨text, hne, htext⟩ := exists_toWellFormed_eq hhalf
    obtain ⟨before, after, hsplit⟩ := List.append_of_mem hfield
    refine hfields (before ++ text :: after) (by simp [hsplit]) (fun heq => ?_) ?_
    · rw [hsplit] at heq
      exact hne (List.cons.inj (List.append_cancel_left heq)).1
    · rw [SubmittedEvent.signedBytes, hsplit, utf8Bytes, utf8Bytes, toWellFormed_joined,
        toWellFormed_joined]
      simp [htext]
  · refine filled_of_flipBlanks_eq (not_not.mp fun hne => ?_)
    refine h event.flipBlanks (Ne.symm hne) ?_
    rw [SubmittedEvent.signedBytes, SubmittedEvent.signedBytes, fields_flipBlanks]

/-- An event is told apart from all others exactly if it is plain and filled; a plain one is told
apart from each with the same blanks. -/
theorem separated_iff (event : SubmittedEvent) :
    ((∀ other, Separated event other) ↔ event.Plain ∧ event.Filled) ∧
      ∀ other, event.Plain → event.SameBlanks other → Separated event other := by
  refine ⟨⟨fun h => plain_of_signed fun other => (h other).signed, ?_⟩,
    fun other hplain hblanks => hplain.separated hblanks⟩
  rintro ⟨hplain, hfilled⟩ other
  exact hplain.separated (hfilled.sameBlanks other)

/-! A peer and details that are cut at different places. -/

def receivedEvent (peer_id details : String) : SubmittedEvent where
  timestamp := codeUnitsOf "2026-01-01T00:00:00.000Z".toList
  event_type := codeUnitsOf "AGENT_MESSAGE_RX".toList
  agent_id := codeUnitsOf ['a']
  peer_id := some (codeUnitsOf peer_id.toList)
  details := some (codeUnitsOf details.toList)
  entity_type := none
  entity_id := none

/-- The signature of the one event is a signature of the other. -/
theorem not_separated_shifted : ¬ Separated (receivedEvent "b" "c|d") (receivedEvent "b|c" "d") :=
  fun h => h.signed (by decide) (by decide)

end ThinkLocal.Audit
