import ThinkLocal.Foundation.Segments
import ThinkLocal.Js.Utf16
import ThinkLocal.Registry.Poison

/-!
# What the hash of capabilities tells

`hashCapabilities` sorts one line for each capability and hashes the lines with `|` in between.  The
hash does not depend on the order of the capabilities.  It tells their tuples where the texts in them
hold no delimiter; otherwise different tuples may have the same text.
-/

namespace ThinkLocal.Registry

open Foundation CapabilityRegistry

open Js (decodeUnits_cons)

open Js.Json (decodeUnits)

/-! ## The order of the lines -/

theorem decodeUnits_codeUnits (text : String) : decodeUnits (codeUnits text) = text.toList := by
  unfold codeUnits
  induction text.toList with
  | nil => rfl
  | cons c rest ih =>
      rw [List.flatMap_cons, decodeUnits_cons, ih]

/-- Texts are told by their code units. -/
theorem codeUnits_injective : Function.Injective codeUnits := by
  intro text text' h
  apply String.toList_injective
  rw [← decodeUnits_codeUnits, h, decodeUnits_codeUnits]

/-- The order in which `sort` puts texts. -/
def unitsLe (a b : String) : Bool := decide (codeUnits a ≤ codeUnits b)

/-- Sorting forgets the order of the texts. -/
theorem mergeSort_eq_of_perm {lines lines' : List String} (h : lines.Perm lines') :
    lines.mergeSort unitsLe = lines'.mergeSort unitsLe := by
  have htrans : ∀ a b c, unitsLe a b = true → unitsLe b c = true → unitsLe a c = true :=
    fun a b c hab hbc =>
      decide_eq_true ((of_decide_eq_true hab).trans (of_decide_eq_true hbc))
  have htotal : ∀ a b, (unitsLe a b || unitsLe b a) = true := by
    intro a b
    rw [Bool.or_eq_true]
    exact (le_total (codeUnits a) (codeUnits b)).imp decide_eq_true decide_eq_true
  have hperm : (lines.mergeSort unitsLe).Perm (lines'.mergeSort unitsLe) :=
    ((List.mergeSort_perm lines unitsLe).trans h).trans (List.mergeSort_perm lines' unitsLe).symm
  refine hperm.eq_of_pairwise (fun a b _ _ hab hba => ?_)
    (List.pairwise_mergeSort htrans htotal lines) (List.pairwise_mergeSort htrans htotal lines')
  exact codeUnits_injective (le_antisymm (of_decide_eq_true hab) (of_decide_eq_true hba))

/-! ## Lines and tuples -/

/-- What the hash reads of a capability. -/
structure HashTuple where
  agent_id : String
  skill_id : String
  version : String
  health : String
  deriving DecidableEq

def HashTuple.line (t : HashTuple) : String :=
  t.agent_id ++ "::" ++ t.skill_id ++ ":" ++ t.version ++ ":" ++ t.health

def Capability.json (cap : Capability) : Json := .object cap.toFields

def Capability.tuple (cap : Capability) : HashTuple :=
  ⟨cap.agent_id, cap.skill_id, cap.version, cap.health.text⟩

def hashedText (tuples : List HashTuple) : String :=
  "|".intercalate ((tuples.map HashTuple.line).mergeSort unitsLe)

def digest (sha256 : String → String) (text : String) : String :=
  String.ofList ((sha256 text).toList.take 16)

theorem hashLines_json (caps : List Capability) :
    hashLines (caps.map Capability.json) = some (caps.map fun cap => cap.tuple.line) := by
  induction caps with
  | nil => rfl
  | cons cap caps ih =>
      rw [List.map_cons, hashLines, ih]
      rfl

theorem hashCapabilities_json (sha256 : String → String) (caps : List Capability) :
    hashCapabilities sha256 (caps.map Capability.json) =
      some (digest sha256 (hashedText (caps.map Capability.tuple))) := by
  rw [hashCapabilities, hashLines_json, hashedText, List.map_map]
  rfl

/-- Different tuples with the same text. -/
def Ambiguous (tuples tuples' : List HashTuple) : Prop :=
  hashedText tuples = hashedText tuples' ∧ ¬ tuples.Perm tuples'

theorem hashedText_of_perm {tuples tuples' : List HashTuple} (h : tuples.Perm tuples') :
    hashedText tuples = hashedText tuples' := by
  unfold hashedText
  rw [mergeSort_eq_of_perm (h.map HashTuple.line)]

theorem hashedText_eq_iff {tuples tuples' : List HashTuple} :
    hashedText tuples = hashedText tuples' ↔ tuples.Perm tuples' ∨ Ambiguous tuples tuples' := by
  constructor
  · intro htext
    by_cases hperm : tuples.Perm tuples'
    · exact .inl hperm
    · exact .inr ⟨htext, hperm⟩
  · rintro (hperm | ⟨htext, -⟩)
    · exact hashedText_of_perm hperm
    · exact htext

theorem length_intercalate (sep : Char) (lists : List (List Char)) :
    ([sep].intercalate lists).length = (lists.map fun l => l.length + 1).sum - 1 := by
  induction lists with
  | nil => rfl
  | cons l rest ih =>
      cases rest with
      | nil => simp
      | cons next rest =>
          rw [List.intercalate_cons_cons, List.length_append, List.length_append, ih]
          simp only [List.map_cons, List.sum_cons, List.length_singleton]
          omega

theorem length_hashedText (tuples : List HashTuple) :
    (hashedText tuples).toList.length =
      (tuples.map fun t => t.line.toList.length + 1).sum - 1 := by
  have hperm : (((tuples.map HashTuple.line).mergeSort unitsLe).map String.toList).Perm
      ((tuples.map HashTuple.line).map String.toList) := (List.mergeSort_perm _ _).map _
  rw [hashedText, String.toList_intercalate]
  have hlength := length_intercalate '|'
    (((tuples.map HashTuple.line).mergeSort unitsLe).map String.toList)
  rw [(hperm.map fun l => l.length + 1).sum_eq, List.map_map, List.map_map] at hlength
  exact hlength

theorem line_ne_nil (t : HashTuple) : t.line.toList ≠ [] := by
  simp [HashTuple.line, String.toList_append]

/-- More tuples have a longer text. -/
theorem hashedText_ne_of_sublist {tuples tuples' : List HashTuple} (h : tuples.Sublist tuples')
    (hlt : tuples.length < tuples'.length) : hashedText tuples ≠ hashedText tuples' := by
  have hsum : (tuples.map fun t => t.line.toList.length + 1).sum + 2 ≤
      (tuples'.map fun t => t.line.toList.length + 1).sum := by
    have hline : ∀ t : HashTuple, 1 ≤ t.line.toList.length := fun t =>
      List.length_pos_of_ne_nil (line_ne_nil t)
    induction h with
    | slnil => cases hlt
    | cons t hsub ih =>
        have hle := (hsub.map fun t => t.line.toList.length + 1).sum_le_sum fun _ _ => Nat.zero_le _
        have ht := hline t
        simp only [List.map_cons, List.sum_cons]
        omega
    | cons_cons t hsub ih =>
        simp only [List.length_cons, Nat.add_lt_add_iff_right] at hlt
        have hrest := ih hlt
        simp only [List.map_cons, List.sum_cons]
        omega
  intro htext
  have hlength := congrArg (fun text => text.toList.length) htext
  rw [length_hashedText, length_hashedText] at hlength
  omega

/-- The hash tells two texts from each other. -/
def NoCollision (sha256 : String → String) (text text' : String) : Prop :=
  digest sha256 text = digest sha256 text' → text = text'

theorem NoCollision.digest_eq_iff {sha256 : String → String} {text text' : String}
    (h : NoCollision sha256 text text') : digest sha256 text = digest sha256 text' ↔ text = text' :=
  ⟨h, fun htext => htext ▸ rfl⟩

/-- The hashes are equal exactly for the same tuples, unless the texts are ambiguous. -/
theorem hashCapabilities_tells_iff {sha256 : String → String} {caps caps' : List Capability}
    (hsha : NoCollision sha256 (hashedText (caps.map Capability.tuple))
      (hashedText (caps'.map Capability.tuple))) :
    (hashCapabilities sha256 (caps.map Capability.json) =
        hashCapabilities sha256 (caps'.map Capability.json) ↔
      (caps.map Capability.tuple).Perm (caps'.map Capability.tuple)) ↔
      ¬ Ambiguous (caps.map Capability.tuple) (caps'.map Capability.tuple) := by
  rw [hashCapabilities_json, hashCapabilities_json, Option.some.injEq, hsha.digest_eq_iff,
    hashedText_eq_iff]
  constructor
  · exact fun h hambiguous => hambiguous.2 (h.mp (.inr hambiguous))
  · exact fun h => ⟨fun heq => heq.resolve_right h, .inl⟩

/-! ## Texts without delimiters -/

/-- No delimiter of the line can be read in another place. -/
structure HashTuple.Plain (t : HashTuple) : Prop where
  /-- The id may hold single colons, but not at its end. -/
  agent : ¬ [':', ':'] <:+: t.agent_id.toList ++ [':']
  skill : ':' ∉ t.skill_id.toList
  version : ':' ∉ t.version.toList
  noBar : '|' ∉ t.line.toList

/-- What stands before the first double colon can be read off the whole. -/
theorem append_colons_injective {l l' k k' : List Char} (hl : ¬ [':', ':'] <:+: l ++ [':'])
    (hl' : ¬ [':', ':'] <:+: l' ++ [':'])
    (h : l ++ ':' :: ':' :: k = l' ++ ':' :: ':' :: k') : l = l' ∧ k = k' := by
  have hshort : ∀ {l l' k k' : List Char}, ¬ [':', ':'] <:+: l' ++ [':'] →
      l ++ ':' :: ':' :: k = l' ++ ':' :: ':' :: k' → l'.length ≤ l.length := by
    intro l l' k k' hl' h
    by_contra hlt
    -- the double colon behind the shorter text lies in the longer one
    have hleft : l ++ [':', ':'] <+: l' ++ ':' :: ':' :: k' := by
      rw [← h]
      exact ⟨k, by simp⟩
    have hright : l' ++ [':'] <+: l' ++ ':' :: ':' :: k' := ⟨':' :: k', by simp⟩
    have hprefix : l ++ [':', ':'] <+: l' ++ [':'] := by
      refine List.prefix_of_prefix_length_le hleft hright ?_
      simp only [List.length_append, List.length_cons, List.length_nil]
      omega
    exact hl' ((List.suffix_append l [':', ':']).isInfix.trans hprefix.isInfix)
  have hlength : l.length = l'.length := le_antisymm (hshort hl h.symm) (hshort hl' h)
  obtain ⟨hl, hk⟩ := List.append_inj h hlength
  exact ⟨hl, by simpa using hk⟩

theorem HashTuple.Plain.line_injective {t t' : HashTuple} (ht : t.Plain) (ht' : t'.Plain)
    (h : t.line = t'.line) : t = t' := by
  obtain ⟨agent, skill, version, health⟩ := t
  obtain ⟨agent', skill', version', health'⟩ := t'
  have hlists : agent.toList ++ ':' :: ':' ::
        (skill.toList ++ ':' :: (version.toList ++ ':' :: health.toList)) =
      agent'.toList ++ ':' :: ':' ::
        (skill'.toList ++ ':' :: (version'.toList ++ ':' :: health'.toList)) := by
    simpa [HashTuple.line, String.toList_append] using congrArg String.toList h
  obtain ⟨hagent, hlists⟩ := append_colons_injective ht.agent ht'.agent hlists
  obtain ⟨hskill, hlists⟩ := append_cons_injective ht.skill ht'.skill hlists
  obtain ⟨hversion, hhealth⟩ := append_cons_injective ht.version ht'.version hlists
  exact HashTuple.mk.injEq .. ▸ ⟨String.toList_injective hagent, String.toList_injective hskill,
    String.toList_injective hversion, String.toList_injective hhealth⟩

theorem hashedText_eq_join (tuples : List HashTuple) :
    hashedText tuples = joinSegments '|' ((tuples.map HashTuple.line).mergeSort unitsLe) := by
  apply String.toList_injective
  rw [hashedText, String.toList_intercalate, joinSegments, String.toList_ofList,
    String.toList_ofList]

theorem segments_hashedText {tuples : List HashTuple} (h : ∀ t ∈ tuples, t.Plain)
    (hne : tuples ≠ []) :
    segments '|' (hashedText tuples) = (tuples.map HashTuple.line).mergeSort unitsLe := by
  rw [hashedText_eq_join, segments_joinSegments]
  · intro line hline
    obtain ⟨t, ht, rfl⟩ := List.mem_map.mp (List.mem_mergeSort.mp hline)
    exact (h t ht).noBar
  · intro hnil
    have hlength := congrArg List.length hnil
    rw [List.length_mergeSort, List.length_map, List.length_nil] at hlength
    exact hne (List.length_eq_zero_iff.mp hlength)

/-- The text of some tuples is not empty. -/
theorem hashedText_ne_empty {tuples : List HashTuple} (h : ∀ t ∈ tuples, t.Plain)
    (hne : tuples ≠ []) : hashedText tuples ≠ "" := by
  intro hempty
  have hsegments := segments_hashedText h hne
  rw [hempty] at hsegments
  have hmem : "" ∈ (tuples.map HashTuple.line).mergeSort unitsLe := by
    rw [← hsegments]
    decide
  obtain ⟨t, -, ht⟩ := List.mem_map.mp (List.mem_mergeSort.mp hmem)
  exact line_ne_nil t (congrArg String.toList ht)

/-- The lines can be read off the text, up to their order. -/
theorem lines_perm_of_hashedText {tuples tuples' : List HashTuple} (h : ∀ t ∈ tuples, t.Plain)
    (h' : ∀ t ∈ tuples', t.Plain) (htext : hashedText tuples = hashedText tuples') :
    (tuples.map HashTuple.line).Perm (tuples'.map HashTuple.line) := by
  have hnone : hashedText [] = "" := by
    rw [hashedText, List.map_nil, List.mergeSort_nil, String.intercalate_nil]
  by_cases hne : tuples = []
  · by_cases hne' : tuples' = []
    · rw [hne, hne']
    · rw [hne, hnone] at htext
      exact absurd htext.symm (hashedText_ne_empty h' hne')
  · by_cases hne' : tuples' = []
    · rw [hne', hnone] at htext
      exact absurd htext (hashedText_ne_empty h hne)
    · have hsorted := segments_hashedText h hne
      rw [htext, segments_hashedText h' hne'] at hsorted
      exact (List.mergeSort_perm _ unitsLe).symm.trans
        (hsorted ▸ List.mergeSort_perm (tuples'.map HashTuple.line) unitsLe)

/-- Texts without delimiters are not ambiguous. -/
theorem not_ambiguous_of_plain {tuples tuples' : List HashTuple} (h : ∀ t ∈ tuples, t.Plain)
    (h' : ∀ t ∈ tuples', t.Plain) : ¬ Ambiguous tuples tuples' := by
  rintro ⟨htext, hdifferent⟩
  have hlines := lines_perm_of_hashedText h h' htext
  -- a line is read back into its tuple
  have : Nonempty HashTuple := ⟨⟨"", "", "", ""⟩⟩
  let back := Function.invFunOn HashTuple.line {t | t.Plain}
  have hback : ∀ tuples : List HashTuple, (∀ t ∈ tuples, t.Plain) →
      (tuples.map HashTuple.line).map back = tuples := by
    intro tuples htuples
    have hleft : Set.LeftInvOn back HashTuple.line {t | t.Plain} :=
      Set.InjOn.leftInvOn_invFunOn fun t ht t' ht' heq => ht.line_injective ht' heq
    rw [List.map_map]
    exact (List.map_congr_left fun t ht => hleft (htuples t ht)).trans (List.map_id _)
  have hperm := hlines.map back
  rw [hback _ h, hback _ h'] at hperm
  exact hdifferent hperm

end ThinkLocal.Registry
