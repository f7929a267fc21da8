import ThinkLocal.Js.JsonPaths
import ThinkLocal.Js.Utf8
import ThinkLocal.Registry.CapabilityHash

/-!
# The hash of a manifest

`computeManifestHash` of `skill-manifest.ts` passes the sorted keys of a manifest to `JSON.stringify`.
The order of keys has no part in the hash, but below the top a field is only written if its key is a
key of the manifest itself.
-/

namespace ThinkLocal.Skills.ManifestHash

open ThinkLocal.Js
open ThinkLocal.Registry (mergeSort_eq_of_perm unitsLe)
open Json (Agree Listed Same Step fieldOf readField shapeAt stringifyListed)

/-- A manifest with any JSON values in its fields. -/
structure SkillManifest where
  fields : List (String × Json)
  representable : (Json.object fields).Representable

namespace SkillManifest

/-- `rest` of `{ signature, ...rest }`. -/
def restFields (m : SkillManifest) : List (String × Json) :=
  m.fields.filter fun field => field.1 ≠ "signature"

def rest (m : SkillManifest) : Json := .object m.restFields

/-- `Object.keys(rest).sort()`. -/
def keys (m : SkillManifest) : List String := (m.restFields.map Prod.fst).mergeSort unitsLe

end SkillManifest

def computeManifestHash (sha256 : Bytes → String) (manifest : SkillManifest) : String :=
  sha256 (encodeUtf8 (stringifyListed manifest.keys manifest.rest).toList)

/-- The hash tells manifests that are not the same up to the order of keys, and only these. -/
def Detects (sha256 : Bytes → String) (m m' : SkillManifest) : Prop :=
  computeManifestHash sha256 m = computeManifestHash sha256 m' ↔ Same m.rest m'.rest

/-- A difference that shows in the text: the keys of the manifests themselves, or something at a path
of such keys. -/
def Visible (m m' : SkillManifest) : Prop :=
  (¬ ∀ key, key ∈ m.keys ↔ key ∈ m'.keys) ∨
    ∃ path : List Step, (∀ step ∈ path, Listed m.keys step) ∧
      shapeAt readField path m.rest ≠ shapeAt readField path m'.rest

variable {m m' : SkillManifest} {sha256 : Bytes → String} {key : String}

/-! ## Keys -/

theorem SkillManifest.nodup_restFields (m : SkillManifest) :
    (m.restFields.map Prod.fst).Nodup :=
  (List.filter_sublist.map Prod.fst).nodup m.representable.1.nodup

theorem SkillManifest.nodup_keys (m : SkillManifest) : m.keys.Nodup :=
  (List.mergeSort_perm _ unitsLe).nodup_iff.mpr m.nodup_restFields

theorem SkillManifest.mem_keys : key ∈ m.keys ↔ (fieldOf m.restFields key).isSome := by
  rw [SkillManifest.keys, (List.mergeSort_perm _ unitsLe).mem_iff, ← not_iff_not,
    ← Json.fieldOf_eq_none_iff, Option.isSome_iff_ne_none, not_not]

theorem SkillManifest.representable_rest (m : SkillManifest) : m.rest.Representable := by
  have hall := Json.representableFields_iff.mp m.representable.2
  refine ⟨⟨m.nodup_restFields, ?_⟩, Json.representableFields_iff.mpr fun field hfield =>
    hall field (List.mem_of_mem_filter hfield)⟩
  exact m.representable.1.sorted.sublist (List.filter_sublist.map Prod.fst)

/-- The same keys are in the same order. -/
theorem keys_eq (h : ∀ key, key ∈ m.keys ↔ key ∈ m'.keys) : m.keys = m'.keys := by
  refine mergeSort_eq_of_perm ?_
  refine (List.perm_ext_iff_of_nodup m.nodup_restFields m'.nodup_restFields).mpr fun key => ?_
  rw [← (List.mergeSort_perm _ unitsLe).mem_iff, ← (List.mergeSort_perm (m'.restFields.map _)
    unitsLe).mem_iff]
  exact h key

/-- The text of a manifest shows its keys. -/
theorem mem_keys_of_text_eq
    (h : stringifyListed m.keys m.rest = stringifyListed m'.keys m'.rest) (hkey : key ∈ m.keys) :
    key ∈ m'.keys := by
  have hparse := congrArg Json.parse h
  rw [stringifyListed, stringifyListed, Json.parse_stringify, Json.parse_stringify] at hparse
  have hchild := Json.child_reread_selected m.nodup_keys (.key key) m.rest
  have hlisted : Listed m.keys (.key key) := hkey
  rw [Option.some.inj hparse, Json.child_reread_selected m'.nodup_keys,
    Json.child_selected m'.nodup_keys, Json.child_selected m.nodup_keys, if_pos hlisted] at hchild
  by_contra hother
  have hunlisted : ¬ Listed m'.keys (.key key) := hother
  rw [if_neg hunlisted] at hchild
  obtain ⟨value, hvalue⟩ := Option.isSome_iff_exists.mp (SkillManifest.mem_keys.mp hkey)
  have hread : Json.child readField (.key key) m.rest = some value := by
    rw [SkillManifest.rest, Json.child, readField, hvalue, Option.some_or]
  rw [hread] at hchild
  cases hchild

/-! ## The law -/

theorem computeManifestHash_eq_iff (hsha : Function.Injective sha256) (m m' : SkillManifest) :
    computeManifestHash sha256 m = computeManifestHash sha256 m' ↔
      (∀ key, key ∈ m.keys ↔ key ∈ m'.keys) ∧
        Agree readField (Listed m.keys) m.rest m'.rest := by
  have htext : computeManifestHash sha256 m = computeManifestHash sha256 m' ↔
      stringifyListed m.keys m.rest = stringifyListed m'.keys m'.rest := by
    rw [computeManifestHash, computeManifestHash, hsha.eq_iff, encodeUtf8_injective.eq_iff,
      String.toList_inj]
  have hagree := Json.stringifyListed_eq_iff m.nodup_keys m.representable_rest
    m'.representable_rest
  rw [htext, ← hagree]
  constructor
  · intro heq
    have hkeys : ∀ key, key ∈ m.keys ↔ key ∈ m'.keys :=
      fun key => ⟨mem_keys_of_text_eq heq, mem_keys_of_text_eq heq.symm⟩
    exact ⟨hkeys, by rw [heq, keys_eq hkeys]⟩
  · rintro ⟨hkeys, heq⟩
    rw [heq, keys_eq hkeys]

/-- Manifests that are the same have the same hash. -/
theorem keys_of_same (h : Same m.rest m'.rest) : key ∈ m.keys ↔ key ∈ m'.keys := by
  rw [SkillManifest.mem_keys, SkillManifest.mem_keys]
  have hrel : Option.Rel Same (Json.child fieldOf (.key key) m.rest)
      (Json.child fieldOf (.key key) m'.rest) := h.child trivial
  rw [SkillManifest.rest, SkillManifest.rest, Json.child, Json.child] at hrel
  generalize fieldOf m.restFields key = x at hrel
  generalize fieldOf m'.restFields key = y at hrel
  cases hrel with
  | none => rfl
  | some _ => rfl

/-- The hash tells a difference exactly if it is visible. -/
theorem detects_iff (hsha : Function.Injective sha256) (m m' : SkillManifest) :
    Detects sha256 m m' ↔ (¬ Same m.rest m'.rest → Visible m m') := by
  rw [Detects, computeManifestHash_eq_iff hsha]
  constructor
  · rintro hdetects hdiffer
    by_contra hhidden
    rw [Visible, not_or, not_not] at hhidden
    refine hdiffer (hdetects.mp ⟨hhidden.1, fun path hpath => ?_⟩)
    by_contra hshape
    exact hhidden.2 ⟨path, hpath, hshape⟩
  · intro hvisible
    constructor
    · rintro ⟨hkeys, hagree⟩
      by_contra hdiffer
      rcases hvisible hdiffer with hother | ⟨path, hpath, hshape⟩
      · exact hother hkeys
      · exact hshape (hagree path hpath)
    · intro hsame
      exact ⟨fun _ => keys_of_same hsame, hsame.agree_readField _⟩

/-! ## A nested key -/

/-- A manifest that requires one tool. -/
def sampleManifest (tool : String) : SkillManifest where
  fields := [("name", .string "db"), ("version", .string "1.0.0"), ("description", .string ""),
    ("origin", .string "spiffe://peer"), ("capabilities", .array [.string "db.read"]),
    ("requires", .object [("mcp_tools", .array [.string tool])]),
    ("format_version", .number (.finite 1))]
  representable := by
    rw [Json.Representable]
    refine ⟨⟨by simp, ?_⟩, ?_⟩
    · exact (by decide : ["name", "version", "description", "origin", "capabilities", "requires",
        "format_version"].Pairwise fun first second => Json.precedes second first = false)
    · have hone : IsDouble 1 := by decide +kernel
      have htools : Json.InOrder [("mcp_tools", Json.array [.string tool])] := ⟨by simp, by simp⟩
      simpa [Json.RepresentableFields, Json.Representable, Json.RepresentableItems, hone] using htools

/-- The texts that are hashed, byte by byte. -/
def plainHash (bytes : Bytes) : String := String.ofList (bytes.map fun b => Char.ofNat b.toNat)

theorem plainHash_injective : Function.Injective plainHash := by
  have hbyte : Function.Injective fun b : UInt8 => Char.ofNat b.toNat := by
    intro b b' h
    have hnat : ∀ b : UInt8, (Char.ofNat b.toNat).toNat = b.toNat := by
      intro b
      have hvalid : b.toNat.isValidChar := .inl (by have hsmall := b.toNat_lt; omega)
      rw [Char.ofNat, dif_pos hvalid]
      rfl
    exact UInt8.toNat_inj.mp ((hnat b).symm.trans ((congrArg Char.toNat h).trans (hnat b')))
  intro bytes bytes' h
  exact hbyte.list_map (String.ofList_inj.mp h)

theorem keys_sampleManifest (tool : String) : (sampleManifest tool).keys =
    ["capabilities", "description", "format_version", "name", "origin", "requires", "version"] := by
  have hperm : ((sampleManifest tool).restFields.map Prod.fst).Perm
      ["capabilities", "description", "format_version", "name", "origin", "requires", "version"] :=
    (by decide : ["name", "version", "description", "origin", "capabilities", "requires",
      "format_version"].Perm ["capabilities", "description", "format_version", "name", "origin",
      "requires", "version"])
  rw [SkillManifest.keys, mergeSort_eq_of_perm hperm]
  exact List.mergeSort_of_pairwise (by decide +kernel)

theorem detects_iff_sample :
    Detects plainHash (sampleManifest "sql") (sampleManifest "mail") ↔
      (¬ Same (sampleManifest "sql").rest (sampleManifest "mail").rest →
        Visible (sampleManifest "sql") (sampleManifest "mail")) :=
  detects_iff plainHash_injective _ _

/-- The tools that a skill requires have no part in its hash. -/
theorem not_detects_sample : ¬ Detects plainHash (sampleManifest "sql") (sampleManifest "mail") := by
  intro hdetects
  have htext : stringifyListed (sampleManifest "sql").keys (sampleManifest "sql").rest =
      stringifyListed (sampleManifest "mail").keys (sampleManifest "mail").rest := by
    rw [keys_sampleManifest, keys_sampleManifest]
    decide +kernel
  have hsame := hdetects.mp (by rw [computeManifestHash, computeManifestHash, htext])
  have hshape := hsame [.key "requires", .key "mcp_tools", .index 0] fun _ _ => trivial
  revert hshape
  decide +kernel

end ThinkLocal.Skills.ManifestHash
