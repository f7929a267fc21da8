import ThinkLocal.Foundation.FileTree
import ThinkLocal.Js.Base64
import ThinkLocal.Js.JsonValues
import ThinkLocal.Js.Path
import ThinkLocal.Js.Utf8

/-!
# Signed packages of skills

`skill-package.ts`: a package is made of a manifest and a code, signed, saved as one file, loaded,
verified and installed as two files.  A manifest is any object; `id` and `version` name the file of the
package, `id` and `entrypoint` those of the skill.
-/

namespace ThinkLocal.SkillPackages

open Foundation Js

/-! ## The disk -/

structure Disk where
  tree : FileTree String Bytes
  /-- Where the system refuses to make a directory or to write a file. -/
  refuses : Path → Bool

inductive Thrown
  | error (message : String)
  /-- An error of the system, or of a function that gets a value of a wrong type. -/
  | system

variable {disk made after : Disk} {path : Path}

/-- `mkdirSync(path, { recursive: true })`. -/
def Disk.mkdir (disk : Disk) (path : Path) : Except Thrown Disk :=
  if disk.tree.CanMake path ∧ disk.refuses path = false then
    .ok { disk with tree := disk.tree.make path }
  else .error .system

/-- `writeFileSync(path, content)`. -/
def Disk.writeFile (disk : Disk) (path : Path) (content : Bytes) : Except Thrown Disk :=
  if h : disk.tree.CanWrite path ∧ disk.refuses path = false then
    .ok { disk with tree := disk.tree.write path content h.1 }
  else .error .system

theorem Disk.mkdir_eq_ok : disk.mkdir path = .ok made ↔
    (disk.tree.CanMake path ∧ disk.refuses path = false) ∧
      made = { disk with tree := disk.tree.make path } := by
  unfold Disk.mkdir
  split
  · next h => simp [h, eq_comm]
  · next h => simp [h]

/-- What a file that was written leaves. -/
structure Written (before : Disk) (path : Path) (content : Bytes) (after : Disk) : Prop where
  canWrite : before.tree.CanWrite path
  accepts : before.refuses path = false
  refuses : after.refuses = before.refuses
  content_eq : ∀ other, after.tree.content other =
    if other = path then some content else before.tree.content other
  isDirectory : ∀ other, after.tree.isDirectory other = before.tree.isDirectory other

theorem Disk.written {content : Bytes} (h : disk.writeFile path content = .ok after) :
    Written disk path content after := by
  unfold Disk.writeFile at h
  split at h
  · next hwrite =>
      obtain rfl := Except.ok.inj h
      exact ⟨hwrite.1, hwrite.2, rfl, fun _ => FileTree.content_write hwrite.1,
        fun _ => FileTree.isDirectory_write hwrite.1⟩
  · cases h

theorem Disk.node_of_writeFile {content : Bytes} (h : disk.writeFile path content = .ok after)
    (other : Path) : after.tree.node other =
      if other = path then some (.file content) else disk.tree.node other := by
  unfold Disk.writeFile at h
  split at h
  · obtain rfl := Except.ok.inj h
    rfl
  · cases h

/-! ## Packages -/

/-- A manifest that a program holds. -/
structure SkillManifest where
  fields : List (String × Json)
  held : Json.Held (.object fields)

structure SkillPackage where
  format : String
  manifest : List (String × Json)
  code : String
  integrity : String
  signature : String
  authorPublicKey : String

/-- The functions of `node:crypto`; `verify` may throw an error with a text. -/
structure Crypto where
  sha256 : Bytes → String
  signData : String → Bytes → Bytes
  verifySignature : String → Bytes → Bytes → Except String Bool

/-- What is signed: the manifest and the code. -/
def signPayload (manifest : List (String × Json)) (code : String) : Bytes :=
  encodeUtf8 ((Json.stringify 0 (.object manifest)).toList ++ code.toList)

/-- What is signed says which manifest and which code it is. -/
theorem signPayload_injective {manifest manifest' : List (String × Json)} {code code' : String}
    (h : signPayload manifest code = signPayload manifest' code') :
    Json.stringify 0 (.object manifest) = Json.stringify 0 (.object manifest') ∧ code = code' := by
  have htexts := encodeUtf8_injective h
  rw [Json.stringify, Json.stringify, String.toList_ofList, String.toList_ofList] at htexts
  obtain ⟨hmanifest, hcode⟩ := Json.stringify_object_append_injective htexts
  exact ⟨congrArg String.ofList hmanifest, String.toList_injective hcode⟩

def SkillPackage.fields (pkg : SkillPackage) : List (String × Json) :=
  [("format", .string pkg.format), ("manifest", .object pkg.manifest), ("code", .string pkg.code),
    ("integrity", .string pkg.integrity), ("signature", .string pkg.signature),
    ("authorPublicKey", .string pkg.authorPublicKey)]

def SkillPackage.json (pkg : SkillPackage) : Json := .object pkg.fields

/-- The text in a field. -/
def textField (fields : List (String × Json)) (key : String) : Option String :=
  match Json.fieldOf fields key with
  | some (.string text) => some text
  | _ => none

/-- The object in a field. -/
def objectField (fields : List (String × Json)) (key : String) : Option (List (String × Json)) :=
  match Json.fieldOf fields key with
  | some (.object fields) => some fields
  | _ => none

/-- A value as a package, `none` where it has not the types of one. -/
def SkillPackage.ofJson : Json → Option SkillPackage
  | .object fields => do
      let format ← textField fields "format"
      let manifest ← objectField fields "manifest"
      let code ← textField fields "code"
      let integrity ← textField fields "integrity"
      let signature ← textField fields "signature"
      let authorPublicKey ← textField fields "authorPublicKey"
      return { format, manifest, code, integrity, signature, authorPublicKey }
  | _ => none

/-- `/^[a-z0-9][a-z0-9._-]*$/`. -/
def validId (text : String) : Bool :=
  let letter := fun c : Char => ('a' ≤ c && c ≤ 'z') || c.isDigit
  match text.toList with
  | [] => false
  | first :: rest => letter first && rest.all fun c => letter c || c ∈ ['.', '_', '-']

/-- `text.replace(part, '')`. -/
def withoutFirst (part : List Char) : List Char → List Char
  | [] => []
  | c :: rest => if part <+: c :: rest then (c :: rest).drop part.length
      else c :: withoutFirst part rest

structure VerificationResult where
  valid : Bool
  errors : List String

def verifySkillPackage (crypto : Crypto) (pkg : SkillPackage) : VerificationResult :=
  let id := Json.fieldOf pkg.manifest "id"
  let format := if pkg.format ≠ "tlskill-v1" then ["Unbekanntes Format: " ++ pkg.format] else []
  let computedHash := crypto.sha256 (encodeUtf8 pkg.code.toList)
  let expectedHash := String.ofList (withoutFirst "sha256:".toList pkg.integrity.toList)
  let integrity := if computedHash ≠ expectedHash then
    ["Integrity-Mismatch: erwartet " ++ expectedHash ++ ", berechnet " ++ computedHash] else []
  let signature :=
    match crypto.verifySignature pkg.authorPublicKey (signPayload pkg.manifest pkg.code)
      (fromBase64 pkg.signature) with
    | .ok true => []
    | .ok false => ["Signatur ungueltig"]
    | .error err => ["Signatur-Pruefung fehlgeschlagen: " ++ err]
  let missing := ["id", "version", "entrypoint"].flatMap fun key =>
    if Json.truthy (Json.fieldOf pkg.manifest key) then [] else ["Manifest: " ++ key ++ " fehlt"]
  let traversal := if Json.truthy id && ! validId (Json.template id) then
    ["Manifest: Ungueltige Skill-ID \"" ++ Json.template id ++
      "\" (nur a-z, 0-9, ., _, - erlaubt)"] else []
  let errors := format ++ integrity ++ signature ++ missing ++ traversal
  { valid := errors.length = 0, errors }

/-! ## Installing -/

/-- A field that a function of paths gets; it throws if that is no text. -/
def pathText (fields : List (String × Json)) (key : String) : Except Thrown String :=
  match textField fields key with
  | some text => .ok text
  | none => .error .system

/-- The text in the code of a package. -/
def SkillPackage.codeContent (pkg : SkillPackage) : List Char := decodeUtf8 (fromBase64 pkg.code)

/-- The text of `manifest.json`. -/
def SkillPackage.manifestContent (pkg : SkillPackage) : List Char :=
  (Json.stringify 2 (.object pkg.manifest)).toList

def installSkillPackage (crypto : Crypto) (disk : Disk) (pkg : SkillPackage) (skillsDir : Path) :
    Except Thrown (Path × Disk) :=
  let result := verifySkillPackage crypto pkg
  if result.valid then do
    let skillDir := resolve skillsDir (← pathText pkg.manifest "id")
    let made ← disk.mkdir skillDir
    let entrypointPath := resolve skillDir (basename (← pathText pkg.manifest "entrypoint"))
    let extracted ← made.writeFile entrypointPath (encodeUtf8 pkg.codeContent)
    let after ← extracted.writeFile (resolve skillDir "manifest.json")
      (encodeUtf8 pkg.manifestContent)
    return (entrypointPath, after)
  else .error (.error ("Skill-Paket ungueltig: " ++ ", ".intercalate result.errors))

/-! ## What a package that is valid fulfils -/

structure Verified (crypto : Crypto) (pkg : SkillPackage) : Prop where
  format : pkg.format = "tlskill-v1"
  integrity : crypto.sha256 (encodeUtf8 pkg.code.toList) =
    String.ofList (withoutFirst "sha256:".toList pkg.integrity.toList)
  signature : crypto.verifySignature pkg.authorPublicKey (signPayload pkg.manifest pkg.code)
    (fromBase64 pkg.signature) = .ok true
  present : ∀ key ∈ ["id", "version", "entrypoint"],
    Json.truthy (Json.fieldOf pkg.manifest key) = true
  validId : validId (Json.template (Json.fieldOf pkg.manifest "id")) = true

variable {crypto : Crypto} {pkg : SkillPackage}

theorem valid_iff : (verifySkillPackage crypto pkg).valid = true ↔ Verified crypto pkg := by
  have hsignature : (match crypto.verifySignature pkg.authorPublicKey
        (signPayload pkg.manifest pkg.code) (fromBase64 pkg.signature) with
      | .ok true => []
      | .ok false => ["Signatur ungueltig"]
      | .error err => ["Signatur-Pruefung fehlgeschlagen: " ++ err]) = [] ↔
      crypto.verifySignature pkg.authorPublicKey (signPayload pkg.manifest pkg.code)
        (fromBase64 pkg.signature) = .ok true := by
    split <;> simp_all
  -- a list of errors is empty if none of its parts has one
  have hempty : ∀ (condition : Prop) [Decidable condition] (message : String),
      (if condition then [message] else []) = [] ↔ ¬ condition := by
    intro condition _ message
    split <;> simp_all
  have hmissing : ∀ key, (if Json.truthy (Json.fieldOf pkg.manifest key) then []
      else ["Manifest: " ++ key ++ " fehlt"]) = [] ↔
        Json.truthy (Json.fieldOf pkg.manifest key) = true := by
    intro key
    split <;> simp_all
  rw [verifySkillPackage]
  dsimp only
  rw [decide_eq_true_iff, List.length_eq_zero_iff, List.append_eq_nil_iff, List.append_eq_nil_iff,
    List.append_eq_nil_iff, List.append_eq_nil_iff, hempty, hempty, hempty, hsignature,
    List.flatMap_eq_nil_iff, not_not, not_not]
  simp only [hmissing]
  constructor
  · rintro ⟨⟨⟨⟨hformat, hintegrity⟩, hsigned⟩, hpresent⟩, hid⟩
    refine ⟨hformat, hintegrity, hsigned, hpresent, ?_⟩
    simpa [hpresent "id" List.mem_cons_self] using hid
  · rintro ⟨hformat, hintegrity, hsigned, hpresent, hid⟩
    exact ⟨⟨⟨⟨hformat, hintegrity⟩, hsigned⟩, hpresent⟩, by simp [hid]⟩

/-- A valid id is the name of a directory. -/
theorem isName_of_validId {text : String} (h : validId text = true) : IsName text := by
  unfold validId at h
  dsimp only at h
  cases htext : text.toList with
  | nil =>
      rw [htext] at h
      cases h
  | cons first rest =>
      rw [htext] at h
      dsimp only at h
      rw [Bool.and_eq_true, List.all_eq_true] at h
      obtain ⟨hfirst, hrest⟩ := h
      -- the first character is a letter or a digit, and no other one is a slash
      have hslash : '/' ≠ first := by
        rintro rfl
        exact absurd hfirst (by decide)
      have hother : ∀ name ∈ ["", ".", ".."], text ≠ name := by
        rintro name hname rfl
        simp only [List.mem_cons, List.not_mem_nil, or_false] at hname
        rcases hname with rfl | rfl | rfl
        · cases htext
        · obtain ⟨rfl, -⟩ := List.cons.inj htext
          exact absurd hfirst (by decide)
        · obtain ⟨rfl, -⟩ := List.cons.inj htext
          exact absurd hfirst (by decide)
      refine ⟨?_, fun hmem => hother text hmem rfl⟩
      rw [htext, List.mem_cons, not_or]
      exact ⟨hslash, fun hmem => absurd (hrest '/' hmem) (by decide)⟩

end ThinkLocal.SkillPackages
