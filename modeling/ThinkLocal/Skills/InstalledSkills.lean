import ThinkLocal.Foundation.Except
import ThinkLocal.SkillPackages.SkillPackage
import ThinkLocal.Skills.SkillFiles

/-!
# Installed skills

`installSkill` and `readSkillManifest` of `skill-manifest.ts` and `installClaudeSkill` of
`skill-adapter-claude.ts` over a disk.  A skill is a directory with `manifest.json` and, perhaps,
`SKILL.md`.

Whether there is a prompt is decided in three ways: the call that installs asks whether the argument
is given and writes the file if it is not empty, and a reader asks whether the file is there.
`install_read_iff` says for which calls the answers agree.
-/

namespace ThinkLocal.Skills.Installed

open Foundation Js
open SkillPackages (Disk Thrown)

/-! ## Manifests -/

/-- A manifest that JSON represents: the typed fields, and the object with its fields in their
order. -/
structure Manifest where
  view : SkillManifest
  fields : List (String × Json)
  order : ∃ own, view.json = .object own ∧ fields.Perm own
  representable : Json.Representable (.object fields)

/-- `raw`. -/
def Manifest.raw (m : Manifest) : Bytes := encodeUtf8 (Json.stringify 2 (.object m.fields)).toList

/-- `μ` is what the manifest is: an object of the program, or a value that was read. -/
structure InstalledSkill (μ : Type) where
  manifest : μ
  dirPath : Path
  hasPrompt : Bool
  manifestHash : String

/-! ## The functions -/

def isSkillChar (c : Char) : Bool := c.isAlphanum || c = '.' || c = '_' || c = '-'

def sanitizeSkillName (name : String) : Except Thrown String :=
  let clean := basename name
  if clean ≠ name ∨ clean = "." ∨ clean = ".." ∨ clean = "" then
    .error (.error ("Invalid skill name (path traversal attempt): " ++ name))
  else if clean.toList.all isSkillChar then .ok clean
  else .error (.error ("Invalid skill name (forbidden characters): " ++ name))

/-- `SKILL.md` of a directory, as a text. -/
def promptText (disk : Disk) (dir : Path) : Option String :=
  (disk.tree.content (resolve dir "SKILL.md")).map fun bytes => String.ofList (decodeUtf8 bytes)

def promptExists (disk : Disk) (dir : Path) : Bool :=
  (disk.tree.node (resolve dir "SKILL.md")).isSome

/-- `if (prompt) writeFileSync(...)`. -/
def writePrompt (disk : Disk) (dir : Path) (prompt : Option String) : Except Thrown Disk :=
  match prompt.filter (· ≠ "") with
  | none => .ok disk
  | some text => disk.writeFile (resolve dir "SKILL.md") (encodeUtf8 text.toList)

def installSkill (sha256 : Bytes → String) (skillsDir : Path) (disk : Disk) (manifest : Manifest)
    (prompt : Option String) : Except Thrown (Disk × InstalledSkill Manifest) := do
  let safeName ← sanitizeSkillName manifest.view.name
  let dir := resolve skillsDir safeName
  let made ← disk.mkdir dir
  let described ← made.writeFile (resolve dir "manifest.json") manifest.raw
  let written ← writePrompt described dir prompt
  .ok (written,
    { manifest := manifest
      dirPath := dir
      hasPrompt := prompt.isSome
      manifestHash := sha256 manifest.raw })

/-- `none` is `null`: the file is missing or no file, its text is no JSON, or a field is missing. -/
def readSkillManifest (sha256 : Bytes → String) (disk : Disk) (skillDir : Path) :
    Option (InstalledSkill Json) := do
  let bytes ← disk.tree.content (resolve skillDir "manifest.json")
  let raw := decodeUtf8 bytes
  let parsed ← Json.parse (String.ofList raw)
  if Json.truthy (parsed.property "name") ∧ Json.truthy (parsed.property "version") ∧
      Json.truthy (parsed.property "capabilities") then
    some
      { manifest := parsed
        dirPath := skillDir
        hasPrompt := promptExists disk skillDir
        manifestHash := sha256 (encodeUtf8 raw) }
  else none

inductive ClaudeError
  | thrown (error : Thrown)
  /-- `SKILL.md` is read and does not exist. -/
  | noPrompt

structure AdapterResult where
  outputPath : Path
  written : Bool

def readPrompt (disk : Disk) (skill : InstalledSkill Manifest) :
    Except ClaudeError (Option String) :=
  if skill.hasPrompt then
    match promptText disk skill.dirPath with
    | some text => .ok (some text)
    | none =>
        if promptExists disk skill.dirPath then .error (.thrown .system) else .error .noPrompt
  else .ok none

/-- The output file, unless it has the content already. -/
def writeOutput (disk : Disk) (outputPath : Path) (content : String) :
    Except ClaudeError (Disk × AdapterResult) :=
  match disk.tree.node outputPath with
  | some .directory => .error (.thrown .system)
  | some (.file bytes) =>
      if decodeUtf8 bytes = content.toList then .ok (disk, ⟨outputPath, false⟩)
      else
        (disk.writeFile outputPath (encodeUtf8 content.toList)).mapError .thrown |>.map
          fun after => (after, ⟨outputPath, true⟩)
  | none =>
      (disk.writeFile outputPath (encodeUtf8 content.toList)).mapError .thrown |>.map
        fun after => (after, ⟨outputPath, true⟩)

def installClaudeSkill (disk : Disk) (skill : InstalledSkill Manifest) (targetDir : Path) :
    Except ClaudeError (Disk × AdapterResult) := do
  let made ← (disk.mkdir targetDir).mapError .thrown
  let prompt ← readPrompt made skill
  let content := renderClaudeSkillMarkdown skill.manifest.view prompt
  let safeName := basename skill.manifest.view.name
  if safeName ≠ skill.manifest.view.name ∨ safeName = "" ∨ safeName = "." ∨ safeName = ".." then
    .error (.thrown (.error
      ("Invalid skill name for Claude adapter: " ++ skill.manifest.view.name)))
  else writeOutput made (resolve targetDir (safeName ++ ".md")) content

/-! ## What the readers have to find -/

/-- The readers agree with the call that installed the skill. -/
structure Agrees (sha256 : Bytes → String) (prompt : Option String) (after : Disk)
    (r : InstalledSkill Manifest) : Prop where
  read : ∃ s, readSkillManifest sha256 after r.dirPath = some s ∧
    s.manifest = .object r.manifest.fields ∧ s.hasPrompt = r.hasPrompt ∧
    s.manifestHash = r.manifestHash
  exists_iff : promptExists after r.dirPath = true ↔ r.hasPrompt = true
  text : r.hasPrompt = true → promptText after r.dirPath = prompt
  missing : ∀ targetDir, installClaudeSkill after r targetDir ≠ .error .noPrompt
  claude : ∀ targetDir disk out, installClaudeSkill after r targetDir = .ok (disk, out) →
    (disk.tree.content out.outputPath).map decodeUtf8 =
      some (renderClaudeSkillMarkdown r.manifest.view prompt).toList

/-- The prompt is written, or what is left of an earlier one is the prompt as well. -/
def Fits (before : Disk) (dir : Path) : Option String → Prop
  | none => promptExists before dir = false
  | some text => text ≠ "" ∨ promptText before dir = some ""

/-! ## Manifests that are read -/

section Manifests

variable {m : Manifest} {key : String} {value : Json}

theorem Manifest.property_of_mem {own : List (String × Json)} (hown : m.view.json = .object own)
    (hmem : (key, value) ∈ own) : Json.property (.object m.fields) key = some value := by
  obtain ⟨own', hown', hperm⟩ := m.order
  obtain rfl : own = own' := Json.object.inj (hown.symm.trans hown')
  have hrepresentable := m.representable
  rw [Json.Representable] at hrepresentable
  exact (Json.fieldOf_eq_some_iff hrepresentable.1.nodup).mpr (hperm.mem_iff.mpr hmem)

theorem Manifest.property_name : Json.property (.object m.fields) "name" = some (.string m.view.name) :=
  m.property_of_mem rfl (by simp)

theorem Manifest.property_version :
    Json.property (.object m.fields) "version" = some (.string m.view.version) :=
  m.property_of_mem rfl (by simp)

theorem Manifest.property_capabilities :
    Json.property (.object m.fields) "capabilities" = some (strings m.view.capabilities) :=
  m.property_of_mem rfl (by simp)

theorem readSkillManifest_eq (sha256 : Bytes → String) {disk : Disk} {dir : Path}
    (hnode : disk.tree.node (resolve dir "manifest.json") = some (.file m.raw))
    (hname : m.view.name ≠ "") (hversion : m.view.version ≠ "") :
    readSkillManifest sha256 disk dir =
      some ⟨.object m.fields, dir, promptExists disk dir, sha256 m.raw⟩ := by
  have hraw : decodeUtf8 m.raw = (Json.stringify 2 (.object m.fields)).toList :=
    decodeUtf8_encodeUtf8 _
  have hparse : Json.parse (String.ofList (decodeUtf8 m.raw)) = some (.object m.fields) := by
    rw [hraw, String.ofList_toList, Json.parse_stringify_of_representable 2 m.representable]
  have hhash : encodeUtf8 (decodeUtf8 m.raw) = m.raw := by
    rw [hraw]
    rfl
  simp [readSkillManifest, FileTree.content_of_node hnode, hparse, hhash, m.property_name,
    m.property_version, m.property_capabilities, Json.truthy, strings, hname, hversion]

end Manifests

/-! ## What an installation leaves -/

section Installation

variable {sha256 : Bytes → String} {skillsDir dir : Path} {before after : Disk} {m : Manifest}
  {prompt : Option String} {r : InstalledSkill Manifest}

theorem sanitizeSkillName_eq_ok {name clean : String} (h : sanitizeSkillName name = .ok clean) :
    clean = name ∧ name ≠ "" ∧ IsName name := by
  unfold sanitizeSkillName at h
  dsimp only at h
  split_ifs at h with hpath
  simp only [not_or, ne_eq, not_not] at hpath
  obtain ⟨hclean, hdot, hdots, hempty⟩ := hpath
  obtain rfl := Except.ok.inj h
  rw [hclean] at hdot hdots hempty
  refine ⟨hclean, hempty, ?_, by simp [hempty, hdot, hdots]⟩
  rw [← hclean]
  exact slash_notMem_basename

/-- What the call returns, and what stands in the directory of the skill. -/
structure Leaves (sha256 : Bytes → String) (before after : Disk) (m : Manifest)
    (prompt : Option String) (r : InstalledSkill Manifest) : Prop where
  name : m.view.name ≠ ""
  returns : r = ⟨m, r.dirPath, prompt.isSome, sha256 m.raw⟩
  manifest : after.tree.node (resolve r.dirPath "manifest.json") = some (.file m.raw)
  written : ∀ text ∈ prompt, text ≠ "" →
    after.tree.node (resolve r.dirPath "SKILL.md") = some (.file (encodeUtf8 text.toList))
  kept : (∀ text ∈ prompt, text = "") → after.tree.node (resolve r.dirPath "SKILL.md") =
    before.tree.node (resolve r.dirPath "SKILL.md")

theorem leaves_of_installSkill (h : installSkill sha256 skillsDir before m prompt = .ok (after, r)) :
    Leaves sha256 before after m prompt r := by
  unfold installSkill at h
  obtain ⟨name, hname, h⟩ := Except.bind_eq_ok_iff.mp h
  obtain ⟨made, hmade, h⟩ := Except.bind_eq_ok_iff.mp h
  obtain ⟨described, hdescribed, h⟩ := Except.bind_eq_ok_iff.mp h
  obtain ⟨written, hwritten, h⟩ := Except.bind_eq_ok_iff.mp h
  obtain ⟨rfl, rfl⟩ := Prod.mk.inj (Except.ok.inj h)
  obtain ⟨rfl, hne, -⟩ := sanitizeSkillName_eq_ok hname
  obtain ⟨-, rfl⟩ := Disk.mkdir_eq_ok.mp hmade
  generalize resolve skillsDir m.view.name = dir at *
  have hmanifest : resolve dir "manifest.json" = dir ++ ["manifest.json"] :=
    resolve_of_isName (by decide)
  have hprompt : resolve dir "SKILL.md" = dir ++ ["SKILL.md"] := resolve_of_isName (by decide)
  have hnode := Disk.node_of_writeFile hdescribed
  -- the directory that is made is not one of its own files
  have hbefore : described.tree.node (resolve dir "SKILL.md") =
      before.tree.node (resolve dir "SKILL.md") := by
    rw [hnode, hmanifest, hprompt, if_neg (by simp)]
    exact if_neg fun hprefix => absurd hprefix.length_le (by simp)
  unfold writePrompt at hwritten
  refine ⟨hne, rfl, ?_, fun text htext hnonempty => ?_, fun hempty => ?_⟩
  · dsimp only
    split at hwritten
    · obtain rfl := Except.ok.inj hwritten
      rw [hnode, if_pos rfl]
    · rw [Disk.node_of_writeFile hwritten, hnode, if_pos rfl, if_neg (by rw [hmanifest, hprompt]; simp)]
  · obtain rfl : prompt = some text := htext
    rw [Option.filter_some, if_pos (by simpa using hnonempty)] at hwritten
    dsimp only at hwritten ⊢
    rw [Disk.node_of_writeFile hwritten, if_pos rfl]
  · have hnone : prompt.filter (· ≠ "") = none := by
      cases prompt with
      | none => rfl
      | some text => simp [hempty text rfl]
    rw [hnone] at hwritten
    obtain rfl := Except.ok.inj hwritten
    exact hbefore

end Installation

/-! ## The adapter -/

section Adapter

variable {disk made after : Disk} {skill : InstalledSkill Manifest} {targetDir path : Path}
  {prompt : Option String} {content : String} {out : AdapterResult} {error : ClaudeError}

theorem readPrompt_eq (hprompt : skill.hasPrompt = prompt.isSome)
    (htext : skill.hasPrompt = true → promptText disk skill.dirPath = prompt) :
    readPrompt disk skill = .ok prompt := by
  unfold readPrompt
  cases prompt with
  | none => simp [hprompt]
  | some text =>
      have hhas : skill.hasPrompt = true := hprompt
      rw [if_pos hhas, htext hhas]

theorem writeOutput_eq_ok (h : writeOutput disk path content = .ok (after, out)) :
    (after.tree.content out.outputPath).map decodeUtf8 = some content.toList := by
  have hwrite : (((disk.writeFile path (encodeUtf8 content.toList)).mapError ClaudeError.thrown).map
      fun after => (after, (⟨path, true⟩ : AdapterResult))) = .ok (after, out) →
      (after.tree.content out.outputPath).map decodeUtf8 = some content.toList := by
    intro h
    obtain ⟨written, hwritten, hout⟩ := Except.map_eq_ok_iff.mp h
    obtain ⟨rfl, rfl⟩ := Prod.mk.inj hout
    have hfile := Disk.node_of_writeFile (Except.mapError_eq_ok_iff.mp hwritten) path
    rw [if_pos rfl] at hfile
    rw [FileTree.content_of_node hfile, Option.map_some, decodeUtf8_encodeUtf8]
  unfold writeOutput at h
  split at h
  · cases h
  · next bytes hnode =>
      split_ifs at h with hsame
      · obtain ⟨rfl, rfl⟩ := Prod.mk.inj (Except.ok.inj h)
        rw [FileTree.content_of_node hnode, Option.map_some, hsame]
      · exact hwrite h
  · exact hwrite h

theorem writeOutput_ne_noPrompt : writeOutput disk path content ≠ .error .noPrompt := by
  have hwrite : (((disk.writeFile path (encodeUtf8 content.toList)).mapError ClaudeError.thrown).map
      fun after => (after, (⟨path, true⟩ : AdapterResult))) ≠ .error .noPrompt := by
    cases disk.writeFile path (encodeUtf8 content.toList) <;> exact fun h => nomatch h
  unfold writeOutput
  split
  · exact fun h => nomatch h
  · split_ifs
    · exact fun h => nomatch h
    · exact hwrite
  · exact hwrite

/-- Making the target directory changes no prompt. -/
theorem promptText_mkdir (h : disk.mkdir targetDir = .ok made) (dir : Path) :
    promptText made dir = promptText disk dir := by
  obtain ⟨⟨hcan, -⟩, rfl⟩ := Disk.mkdir_eq_ok.mp h
  simp only [promptText, FileTree.content_make hcan]

/-- The adapter writes the prompt of the call where that is the one it reads. -/
theorem installClaudeSkill_spec (hprompt : skill.hasPrompt = prompt.isSome)
    (htext : skill.hasPrompt = true → promptText disk skill.dirPath = prompt) :
    installClaudeSkill disk skill targetDir ≠ .error .noPrompt ∧
      ∀ after out, installClaudeSkill disk skill targetDir = .ok (after, out) →
        (after.tree.content out.outputPath).map decodeUtf8 =
          some (renderClaudeSkillMarkdown skill.manifest.view prompt).toList := by
  unfold installClaudeSkill
  cases hmade : disk.mkdir targetDir with
  | error thrown => exact ⟨fun h => (nomatch h), fun _ _ h => nomatch h⟩
  | ok made =>
      have hread : readPrompt made skill = .ok prompt :=
        readPrompt_eq hprompt fun hhas => (promptText_mkdir hmade _).trans (htext hhas)
      simp only [Except.mapError, hread, bind, Except.bind]
      split_ifs
      · exact ⟨fun h => (nomatch h), fun _ _ h => nomatch h⟩
      · exact ⟨writeOutput_ne_noPrompt, fun _ _ h => writeOutput_eq_ok h⟩

end Adapter

/-! ## The law -/

section Law

variable {sha256 : Bytes → String} {skillsDir : Path} {before after : Disk} {m : Manifest}
  {prompt : Option String} {r : InstalledSkill Manifest}

theorem promptText_of_node {disk other : Disk} {dir : Path}
    (h : disk.tree.node (resolve dir "SKILL.md") = other.tree.node (resolve dir "SKILL.md")) :
    promptText disk dir = promptText other dir ∧ promptExists disk dir = promptExists other dir := by
  simp only [promptText, promptExists, FileTree.content, h, and_self]

theorem Leaves.fits_iff (h : Leaves sha256 before after m prompt r) :
    (promptExists after r.dirPath = prompt.isSome ∧
      (prompt.isSome = true → promptText after r.dirPath = prompt)) ↔
      Fits before r.dirPath prompt := by
  -- an empty prompt is not written, so what was there before is read
  by_cases hempty : ∀ text ∈ prompt, text = ""
  · obtain ⟨htext, hexists⟩ := promptText_of_node (h.kept hempty)
    rw [htext, hexists]
    cases prompt with
    | none => simp [Fits]
    | some text =>
        obtain rfl := hempty text rfl
        have hstands : promptText before r.dirPath = some "" →
            promptExists before r.dirPath = true := by
          unfold promptText promptExists FileTree.content
          cases before.tree.node (resolve r.dirPath "SKILL.md") with
          | none => exact fun h => nomatch h
          | some node => exact fun _ => rfl
        simpa [Fits] using hstands
  · push Not at hempty
    obtain ⟨text, rfl, hne⟩ := hempty
    have hfile := h.written text rfl hne
    refine iff_of_true ⟨by simp [promptExists, hfile], fun _ => ?_⟩ (.inl hne)
    rw [promptText, FileTree.content_of_node hfile, Option.map_some, decodeUtf8_encodeUtf8,
      String.ofList_toList]

/-- The readers agree with a call exactly if its prompt is written, or what is left of an earlier
prompt is the prompt of the call. -/
theorem install_read_iff (hversion : m.view.version ≠ "")
    (hinstall : installSkill sha256 skillsDir before m prompt = .ok (after, r)) :
    Agrees sha256 prompt after r ↔ Fits before r.dirPath prompt := by
  have hleaves := leaves_of_installSkill hinstall
  have hmanifest : r.manifest = m := by rw [hleaves.returns]
  have hprompt : r.hasPrompt = prompt.isSome := by rw [hleaves.returns]
  have hhash : r.manifestHash = sha256 m.raw := by rw [hleaves.returns]
  rw [← hleaves.fits_iff, ← hprompt]
  constructor
  · intro hagrees
    exact ⟨Bool.eq_iff_iff.mpr hagrees.exists_iff, hagrees.text⟩
  · rintro ⟨hexists, htext⟩
    have hread := readSkillManifest_eq sha256 hleaves.manifest hleaves.name hversion
    refine ⟨⟨_, hread, by rw [hmanifest], hexists, hhash.symm⟩, by rw [hexists], htext, ?_, ?_⟩
    · exact fun targetDir => (installClaudeSkill_spec hprompt htext).1
    · exact fun targetDir => (installClaudeSkill_spec hprompt htext).2

end Law

/-! ## Two installations -/

def sampleView (version : String) : SkillManifest where
  name := "db"
  version := version
  description := ""
  origin := "spiffe://peer"
  capabilities := ["db.read"]
  format_version := .finite 1

def sampleFields (version : String) : List (String × Json) :=
  [("name", .string "db"), ("version", .string version), ("description", .string ""),
    ("origin", .string "spiffe://peer"), ("capabilities", strings ["db.read"]),
    ("format_version", .number (.finite 1))]

theorem representable_sampleFields (version : String) :
    Json.Representable (.object (sampleFields version)) := by
  rw [Json.Representable]
  refine ⟨⟨by simp [sampleFields], ?_⟩, ?_⟩
  · exact (by decide : ["name", "version", "description", "origin", "capabilities",
      "format_version"].Pairwise fun first second => Json.precedes second first = false)
  · simp only [sampleFields, Json.RepresentableFields, Json.Representable, strings,
      Json.RepresentableItems, List.map_cons, List.map_nil, and_true, true_and]
    decide +kernel

def sampleInstall (version : String) : Manifest where
  view := sampleView version
  fields := sampleFields version
  order := ⟨_, rfl, .refl _⟩
  representable := representable_sampleFields version

def sampleDisk : Disk := ⟨.bare, fun _ => false⟩

def sampleHash (bytes : Bytes) : String := toString bytes.length

/-- The first installation, with a prompt. -/
theorem install_read_iff_first : ∃ after r,
    installSkill sampleHash ["skills"] sampleDisk (sampleInstall "1.0.0") (some "Ask.") =
      .ok (after, r) ∧ Agrees sampleHash (some "Ask.") after r := by
  have hrun : (installSkill sampleHash ["skills"] sampleDisk (sampleInstall "1.0.0")
      (some "Ask.")).isOk = true := by decide +kernel
  cases hinstall : installSkill sampleHash ["skills"] sampleDisk (sampleInstall "1.0.0")
      (some "Ask.") with
  | error _ =>
      rw [hinstall] at hrun
      cases hrun
  | ok p =>
      exact ⟨p.1, p.2, rfl, (install_read_iff (by decide) hinstall).mpr (.inl (by decide))⟩

/-- A second installation without a prompt leaves the prompt of the first one. -/
theorem earlier_prompt_left : ∃ before after r,
    installSkill sampleHash ["skills"] before (sampleInstall "2.0.0") none = .ok (after, r) ∧
      r.hasPrompt = false ∧ promptExists after r.dirPath = true ∧
      ¬ Agrees sampleHash none after r := by
  have hrun : ((installSkill sampleHash ["skills"] sampleDisk (sampleInstall "1.0.0")
      (some "Ask.")).toOption.bind fun first =>
        (installSkill sampleHash ["skills"] first.1 (sampleInstall "2.0.0") none).toOption.map
          fun second => (second.2.hasPrompt, promptExists second.1 second.2.dirPath)) =
      some (false, true) := by decide +kernel
  obtain ⟨⟨before, _⟩, _, hrun⟩ := Option.bind_eq_some_iff.mp hrun
  obtain ⟨⟨after, r⟩, hinstall, hpair⟩ := Option.map_eq_some_iff.mp hrun
  obtain ⟨hprompt, hexists⟩ := Prod.mk.inj hpair
  refine ⟨before, after, r, ?_, hprompt, hexists, fun hagrees => ?_⟩
  · cases hresult : installSkill sampleHash ["skills"] before (sampleInstall "2.0.0") none with
    | error _ =>
        rw [hresult] at hinstall
        cases hinstall
    | ok p =>
        rw [hresult] at hinstall
        exact congrArg Except.ok (Option.some.inj hinstall)
  · rw [hagrees.exists_iff.mp hexists] at hprompt
    cases hprompt

end ThinkLocal.Skills.Installed
