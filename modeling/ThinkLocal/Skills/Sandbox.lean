import ThinkLocal.Foundation.Except
import ThinkLocal.Js.Base64
import ThinkLocal.Js.Data
import ThinkLocal.Js.Decimal
import ThinkLocal.Js.Json
import ThinkLocal.Js.Path
import ThinkLocal.Js.Utf8

/-!
# The sandbox of a skill

`isPathAllowed` and `buildDockerArgs` of `sandbox.ts` for paths with `/`.  A path is compared by its
names: which entries a directory contains, which directory the container gets and which path the
entry has in it.
-/

namespace ThinkLocal.Skills.Sandbox

open Foundation Js
open Data (utf16Length)

structure SandboxConfig where
  allowNetwork : Bool
  maxMemoryMb : Number
  dockerImage : String

/-- `resolve(text)` in a working directory. -/
def resolved (cwd text : String) : Path := resolve (resolve [] cwd) text

/-- `normalize(resolve(text))`. -/
def normalized (cwd text : String) : Path := resolve [] (absoluteText (resolved cwd text))

def isPathAllowed (cwd targetPath allowedDir : String) : Bool :=
  let relativePath := relative (normalized cwd allowedDir) (normalized cwd targetPath)
  relativePath = "" ∨ ¬ ['.', '.'] <+: relativePath.toList ∧ ¬ isAbsolute relativePath

/-- `text.slice(n)`, in code units; half of a surrogate pair is the replacement character. -/
def sliceFrom : ℕ → List Char → List Char
  | 0, l => l
  | _ + 1, [] => []
  | n + 1, c :: rest =>
      if c.toNat < 65536 then sliceFrom n rest
      else if n = 0 then '\ufffd' :: rest
      else sliceFrom (n - 1) rest

def isSeparator (c : Char) : Bool := c = '/' ∨ c = '\\'

def toContainerPath (path : List Char) : List Char := path.map fun c => if c = '\\' then '/' else c

def getRelativeSkillPath (cwd targetPath allowedDir : String) : String :=
  let absoluteTarget := absoluteText (normalized cwd targetPath)
  let absoluteAllowed := absoluteText (normalized cwd allowedDir)
  let rest := sliceFrom (utf16Length absoluteAllowed) absoluteTarget.toList
  String.ofList (toContainerPath (rest.dropWhile isSeparator))

/-- `text.endsWith(end)`. -/
def endsWith (text ending : String) : Bool := ending.toList <:+ text.toList

def getDockerImage (entryPath configuredImage : String) : String :=
  if configuredImage ≠ "" then configuredImage
  else if endsWith entryPath ".py" then "python:3.12-alpine"
  else if endsWith entryPath ".sh" then "alpine:3.20"
  else "node:22-alpine"

def getDockerCommand (cwd entryPath allowedDir : String) : Except String (List String) :=
  let relativePath := getRelativeSkillPath cwd entryPath allowedDir
  let containerPath := "/workspace/" ++ relativePath
  if endsWith entryPath ".py" then .ok ["python", containerPath]
  else if endsWith entryPath ".sh" then .ok ["sh", containerPath]
  else if endsWith entryPath ".js" || endsWith entryPath ".mjs" || endsWith entryPath ".cjs" then
    .ok ["node", containerPath]
  else
    .error ("Docker-Fallback unterstuetzt nur .js, .mjs, .cjs, .py oder .sh: " ++ entryPath)

/-- `text.slice(0, text.lastIndexOf('/'))`, empty without a `/`. -/
def directoryPart (text : String) : String :=
  String.ofList (text.toList.rdropWhile fun c => c ≠ '/').dropLast

/-- The input of a skill is a JSON value or nothing. -/
def buildDockerArgs (cwd entryPath allowedDir : String) (input : Option Json)
    (config : SandboxConfig) : Except String (List String) :=
  let inputBase64 := toBase64 (encodeUtf8 (Json.stringify 0 (input.getD .null)).toList)
  let relativePath := getRelativeSkillPath cwd entryPath allowedDir
  let skillDir := directoryPart relativePath
  let workDir := if skillDir ≠ "" then "/workspace/" ++ skillDir else "/workspace"
  let dockerImage := getDockerImage entryPath config.dockerImage
  (getDockerCommand cwd entryPath allowedDir).map fun command =>
    ["run", "--rm",
      "--network", if config.allowNetwork then "bridge" else "none",
      "--memory", String.ofList config.maxMemoryMb.text ++ "m",
      "--cpus", "1",
      "--pids-limit", "64",
      "--read-only",
      "--mount", "type=bind,src=" ++ absoluteText (resolved cwd allowedDir) ++
        ",dst=/workspace,readonly",
      "-w", workDir,
      "-e", "SANDBOX=1",
      "-e", "SKILL_DIR=" ++ workDir,
      "-e", "SKILL_INPUT_BASE64=" ++ inputBase64,
      dockerImage] ++ command

/-! ## The mounts of a container -/

structure Mount where
  source : Option String
  readOnly : Bool
deriving DecidableEq

/-- The value of `key=value`. -/
def valueOf? (key field : String) : Option String :=
  if (key ++ "=").toList <+: field.toList then
    some (String.ofList (field.toList.drop (key ++ "=").toList.length))
  else none

/-- What Docker takes from the text of a mount, a record of fields with commas in between: the last
value of a key counts.  A quote or a line break does not belong to a plain record. -/
def readMount (text : String) : Option Mount :=
  if '"' ∈ text.toList ∨ '\n' ∈ text.toList then none
  else
    let fields := segments ',' text
    some { source := (fields.filterMap (valueOf? "src")).getLast?
           readOnly := "readonly" ∈ fields }

/-- The values of the option `--mount`. -/
def mounts : List String → List (Option Mount)
  | "--mount" :: value :: rest => readMount value :: mounts rest
  | _ :: rest => mounts rest
  | [] => []

/-! ## The law -/

/-- An entry whose name ends as the runners need it. -/
def Supported (entryPath : String) : Prop :=
  ∃ ending ∈ [".py", ".sh", ".js", ".mjs", ".cjs"], endsWith entryPath ending = true

/-- The container gets the directory and nothing else, to read only, and finds the entry in it. -/
def Mounted (cwd entryPath allowedDir : String) (args : List String) : Prop :=
  mounts args = [some ⟨some (absoluteText (resolved cwd allowedDir)), true⟩] ∧
    ∃ containerPath names, args.getLast? = some containerPath ∧
      resolve [] containerPath = "workspace" :: names ∧
      resolved cwd entryPath = resolved cwd allowedDir ++ names

/-- A path is allowed exactly if the directory contains it, and the container of an allowed entry
is made for it. -/
def Contained (cwd entryPath allowedDir : String) (input : Option Json) (config : SandboxConfig) :
    Prop :=
  (isPathAllowed cwd entryPath allowedDir = true ↔
      resolved cwd allowedDir <+: resolved cwd entryPath) ∧
    (isPathAllowed cwd entryPath allowedDir = true → Supported entryPath →
      ∃ args, buildDockerArgs cwd entryPath allowedDir input config = .ok args ∧
        Mounted cwd entryPath allowedDir args)

variable {cwd entryPath allowedDir : String} {input : Option Json} {config : SandboxConfig}
variable {path names : Path} {name : String}

/-! ## Allowed paths -/

theorem isName_of_mem_resolved {text : String} (h : name ∈ resolved cwd text) : IsName name := by
  have hcwd : ∀ name ∈ resolve [] cwd, IsName name :=
    fun _ => isName_of_mem_resolve fun _ hroot => absurd hroot List.not_mem_nil
  exact isName_of_mem_resolve hcwd h

theorem normalized_eq (cwd text : String) : normalized cwd text = resolved cwd text :=
  resolve_absoluteText fun _ => isName_of_mem_resolved

/-- The dots at the start of a joined path are those of its first name. -/
theorem dots_prefix_joinSegments (h : IsName name) :
    ['.', '.'] <+: (joinSegments '/' (name :: names)).toList ↔ ['.', '.'] <+: name.toList := by
  obtain ⟨rest, heq, hrest⟩ : ∃ rest, (joinSegments '/' (name :: names)).toList =
      name.toList ++ rest ∧ (rest = [] ∨ rest.head? = some '/') :=
    exists_toList_joinSegments_cons name
  rw [heq]
  refine ⟨fun hdots => ?_, fun hdots => hdots.trans (List.prefix_append _ _)⟩
  cases hname : name.toList with
  | nil =>
      have hempty : name = "" := String.toList_inj.mp hname
      exact absurd (by simp [hempty]) h.2
  | cons c chars =>
      cases chars with
      | cons d chars => simpa [hname] using hdots
      | nil =>
          exfalso
          rcases hrest with rfl | hslash
          · simp [hname] at hdots
          · obtain ⟨chars, rfl⟩ : ∃ chars, rest = '/' :: chars := by
              cases rest with
              | nil => cases hslash
              | cons d chars => exact ⟨chars, by simpa using hslash⟩
            simp [hname] at hdots

theorem head?_joinSegments_ne (h : IsName name) :
    (joinSegments '/' (name :: names)).toList.head? ≠ some '/' ∧
      (joinSegments '/' (name :: names)) ≠ "" := by
  obtain ⟨rest, heq, -⟩ : ∃ rest, (joinSegments '/' (name :: names)).toList =
      name.toList ++ rest ∧ _ := exists_toList_joinSegments_cons name
  cases hname : name.toList with
  | nil =>
      have hempty : name = "" := String.toList_inj.mp hname
      exact absurd (by simp [hempty]) h.2
  | cons c chars =>
      rw [hname] at heq
      refine ⟨?_, fun hempty => ?_⟩
      · rw [heq, List.cons_append, List.head?_cons]
        rintro ⟨⟩
        exact h.1 (hname ▸ List.mem_cons_self)
      · rw [hempty] at heq
        cases heq

/-- A path is allowed if the directory contains it, unless the first name below the directory begins
with two dots. -/
theorem isPathAllowed_iff :
    isPathAllowed cwd entryPath allowedDir = true ↔
      ∃ names, resolved cwd entryPath = resolved cwd allowedDir ++ names ∧
        ∀ name ∈ names.head?, ¬ ['.', '.'] <+: name.toList := by
  have hnames : ∀ name ∈ resolved cwd entryPath, IsName name := fun _ => isName_of_mem_resolved
  have hdef : isPathAllowed cwd entryPath allowedDir = true ↔
      relative (resolved cwd allowedDir) (resolved cwd entryPath) = "" ∨
        ¬ ['.', '.'] <+: (relative (resolved cwd allowedDir) (resolved cwd entryPath)).toList ∧
        ¬ (relative (resolved cwd allowedDir) (resolved cwd entryPath)).toList.head? = some '/' := by
    simp [isPathAllowed, isAbsolute, normalized_eq]
  rw [hdef]
  by_cases hinside : resolved cwd allowedDir <+: resolved cwd entryPath
  · obtain ⟨names, heq⟩ := hinside
    rw [← heq] at hnames ⊢
    rw [relative, relativeNames_append]
    simp only [List.append_cancel_left_eq, exists_eq_left']
    cases names with
    | nil => simp [joinSegments]
    | cons name names =>
        have hname : IsName name := hnames name (by simp)
        simp [dots_prefix_joinSegments hname, head?_joinSegments_ne hname]
  · obtain ⟨rest, hrest⟩ := relativeNames_of_outside hinside
    -- a path outside begins with the way up
    have hup : ['.', '.'] <+: (joinSegments '/' (".." :: rest)).toList := by
      obtain ⟨after, heq, -⟩ : ∃ after, (joinSegments '/' (".." :: rest)).toList =
          "..".toList ++ after ∧ _ := exists_toList_joinSegments_cons ".."
      exact heq ▸ List.prefix_append _ after
    rw [relative, hrest]
    refine iff_of_false ?_ ?_
    · rintro (hempty | ⟨hdots, -⟩)
      · rw [hempty] at hup
        cases hup.eq_of_length_le (by decide)
      · exact hdots hup
    · rintro ⟨names, heq, -⟩
      exact hinside ⟨names, heq.symm⟩

/-! ## The entry in the container -/

theorem sliceFrom_append (l l' : List Char) :
    sliceFrom (utf16Length (String.ofList l)) (l ++ l') = l' := by
  induction l with
  | nil => simp [utf16Length, sliceFrom]
  | cons c l ih =>
      simp only [utf16Length, String.toList_ofList, List.map_cons, List.sum_cons] at ih ⊢
      by_cases hc : c.toNat < 65536
      · rw [if_pos hc, Nat.add_comm, List.cons_append, sliceFrom, if_pos hc, ih]
      · rw [if_neg hc, Nat.add_comm, List.cons_append, sliceFrom, if_neg hc,
          if_neg (Nat.succ_ne_zero _), Nat.add_sub_cancel, ih]

/-- What is cut off a contained path leaves the names below, maybe after a separator. -/
theorem sliceFrom_absoluteText (path names : Path) :
    sliceFrom (utf16Length (absoluteText path)) (absoluteText (path ++ names)).toList =
        (joinSegments '/' names).toList ∨
      sliceFrom (utf16Length (absoluteText path)) (absoluteText (path ++ names)).toList =
        '/' :: (joinSegments '/' names).toList := by
  have hslice : ∀ l, (absoluteText (path ++ names)).toList = (absoluteText path).toList ++ l →
      sliceFrom (utf16Length (absoluteText path)) (absoluteText (path ++ names)).toList = l := by
    intro l hl
    have happend := sliceFrom_append (absoluteText path).toList l
    rwa [String.ofList_toList, ← hl] at happend
  by_cases hpath : path = []
  · refine .inl (hslice _ ?_)
    subst hpath
    simp [absoluteText, joinSegments]
  · by_cases hnames : names = []
    · refine .inl (hslice _ ?_)
      subst hnames
      simp [joinSegments]
    · refine .inr (hslice _ ?_)
      simp only [absoluteText, String.toList_append, toList_joinSegments_append hpath hnames,
        List.append_assoc]

theorem getRelativeSkillPath_of_append
    (h : resolved cwd entryPath = resolved cwd allowedDir ++ names) :
    (getRelativeSkillPath cwd entryPath allowedDir).toList =
      toContainerPath ((joinSegments '/' names).toList.dropWhile isSeparator) := by
  simp only [getRelativeSkillPath, normalized_eq, h, String.toList_ofList]
  rcases sliceFrom_absoluteText (resolved cwd allowedDir) names with heq | heq
  · rw [heq]
  · rw [heq, List.dropWhile_cons_of_pos (by decide)]

theorem getRelativeSkillPath_eq (hnames : ∀ name ∈ names, IsName name)
    (hplain : ∀ name ∈ names, '\\' ∉ name.toList)
    (h : resolved cwd entryPath = resolved cwd allowedDir ++ names) :
    getRelativeSkillPath cwd entryPath allowedDir = joinSegments '/' names := by
  have hchars : ∀ c ∈ (joinSegments '/' names).toList, c ≠ '\\' := by
    rintro c hc rfl
    rcases mem_joinSegments hc with hsep | ⟨name, hname, hmem⟩
    · cases hsep
    · exact hplain name hname hmem
  have hhead : (joinSegments '/' names).toList.dropWhile isSeparator =
      (joinSegments '/' names).toList := by
    refine List.dropWhile_eq_self_iff.mpr fun hlength => ?_
    cases names with
    | nil => simp [joinSegments] at hlength
    | cons name names =>
        have hslash : (joinSegments '/' (name :: names)).toList.head? ≠ some '/' :=
          (head?_joinSegments_ne (hnames name List.mem_cons_self)).1
        rw [List.head?_eq_getElem?, List.getElem?_eq_getElem hlength] at hslash
        simpa [isSeparator, hchars _ (List.getElem_mem hlength)] using hslash
  rw [← String.toList_inj, getRelativeSkillPath_of_append h, hhead]
  exact (List.map_congr_left fun c hc => if_neg (hchars c hc)).trans (List.map_id _)

theorem backslash_notMem_getRelativeSkillPath :
    '\\' ∉ (getRelativeSkillPath cwd entryPath allowedDir).toList := by
  simp only [getRelativeSkillPath, toContainerPath, String.toList_ofList, List.mem_map]
  rintro ⟨c, -, hc⟩
  split_ifs at hc with hback
  · cases hc
  · exact hback hc

/-- The container finds the entry exactly if no name below the directory has a backslash. -/
theorem container_path_iff (h : resolved cwd entryPath = resolved cwd allowedDir ++ names) :
    (∃ names', resolve [] ("/workspace/" ++ getRelativeSkillPath cwd entryPath allowedDir) =
        "workspace" :: names' ∧ resolved cwd entryPath = resolved cwd allowedDir ++ names') ↔
      ∀ name ∈ names, '\\' ∉ name.toList := by
  have hnames : ∀ name ∈ names, IsName name := fun name hname =>
    isName_of_mem_resolved (h.symm ▸ List.mem_append_right _ hname)
  constructor
  · rintro ⟨names', hresolve, hentry⟩ name hname hback
    obtain rfl : names = names' := List.append_cancel_left (h.symm.trans hentry)
    have hmem : name ∈ resolve [] ("/workspace/" ++ getRelativeSkillPath cwd entryPath allowedDir) :=
      hresolve ▸ List.mem_cons_of_mem _ hname
    rcases mem_resolve hmem with hroot | ⟨hsegment, -⟩
    · cases hroot
    · -- each backslash was made a slash, so no name of the container has one
      have htext := mem_of_mem_segments hsegment hback
      rw [String.toList_append] at htext
      rcases List.mem_append.mp htext with hfront | hrest
      · revert hfront
        decide
      · exact backslash_notMem_getRelativeSkillPath hrest
  · intro hplain
    refine ⟨names, ?_, h⟩
    rw [getRelativeSkillPath_eq hnames hplain h]
    by_cases hempty : names = []
    · rw [hempty]
      decide
    · have htext : "/workspace/" ++ joinSegments '/' names = absoluteText ("workspace" :: names) := by
        rw [← String.toList_inj, absoluteText, String.toList_append, String.toList_append,
          toList_joinSegments_cons hempty]
        rfl
      rw [htext]
      refine resolve_absoluteText fun name hname => ?_
      rcases List.mem_cons.mp hname with rfl | hname
      · decide
      · exact hnames name hname

/-! ## The arguments -/

theorem mounts_cons_of_ne {arg : String} {rest : List String} (h : arg ≠ "--mount") :
    mounts (arg :: rest) = mounts rest := by
  rw [mounts.eq_def]
  split
  · rename_i heq
    exact absurd (List.cons.inj heq).1 h
  · rename_i heq
    rw [(List.cons.inj heq).2]
  · rename_i heq
    cases heq

/-- A text that begins or ends otherwise is not the option. -/
theorem ne_of_head? {arg : String} {c : Char} (h : arg.toList.head? = some c) (hc : c ≠ '-') :
    arg ≠ "--mount" := by
  rintro rfl
  exact hc (Option.some.inj h).symm

theorem append_m_ne (text : String) : text ++ "m" ≠ "--mount" := by
  intro h
  have hlast := congrArg (fun text : String => text.toList.getLast?) h
  simp [String.toList_append] at hlast

theorem getDockerCommand_of_supported (h : Supported entryPath) :
    ∃ runner ∈ ["python", "sh", "node"], getDockerCommand cwd entryPath allowedDir =
      .ok [runner, "/workspace/" ++ getRelativeSkillPath cwd entryPath allowedDir] := by
  unfold getDockerCommand
  by_cases hpy : endsWith entryPath ".py" = true
  · exact ⟨"python", by simp, if_pos hpy⟩
  by_cases hsh : endsWith entryPath ".sh" = true
  · exact ⟨"sh", by simp, by simp [hpy, hsh]⟩
  refine ⟨"node", by simp, ?_⟩
  obtain ⟨ending, hmem, hends⟩ := h
  simp only [List.mem_cons, List.not_mem_nil, or_false] at hmem
  rcases hmem with rfl | rfl | rfl | rfl | rfl
  · exact absurd hends hpy
  · exact absurd hends hsh
  all_goals simp [hpy, hsh, hends]

theorem getDockerImage_eq_iff (configuredImage : String) :
    getDockerImage entryPath configuredImage = "--mount" ↔ configuredImage = "--mount" := by
  unfold getDockerImage
  split_ifs with hset hpy hsh
  · rfl
  all_goals
    simp only [ne_eq, not_not] at hset
    rw [hset]
    decide

/-- The mounts of a supported entry: the directory, and what a strange image makes of the command. -/
theorem exists_buildDockerArgs (cwd allowedDir : String) (input : Option Json)
    (config : SandboxConfig) (h : Supported entryPath) :
    ∃ args, ∃ runner ∈ ["python", "sh", "node"],
      buildDockerArgs cwd entryPath allowedDir input config = .ok args ∧
      args.getLast? = some ("/workspace/" ++ getRelativeSkillPath cwd entryPath allowedDir) ∧
      mounts args = readMount ("type=bind,src=" ++ absoluteText (resolved cwd allowedDir) ++
          ",dst=/workspace,readonly") ::
        mounts [getDockerImage entryPath config.dockerImage, runner,
          "/workspace/" ++ getRelativeSkillPath cwd entryPath allowedDir] := by
  obtain ⟨runner, hrunner, hcommand⟩ : ∃ runner ∈ ["python", "sh", "node"],
      getDockerCommand cwd entryPath allowedDir =
        .ok [runner, "/workspace/" ++ getRelativeSkillPath cwd entryPath allowedDir] :=
    getDockerCommand_of_supported h
  refine ⟨_, runner, hrunner, by rw [buildDockerArgs, hcommand]; rfl, by simp, ?_⟩
  -- no argument of a setting is taken for another mount
  have hnetwork : (if config.allowNetwork then "bridge" else "none") ≠ "--mount" := by
    split_ifs <;> decide
  have hwork : ∀ rest : String,
      (if rest ≠ "" then "/workspace/" ++ rest else "/workspace") ≠ "--mount" := by
    intro rest
    split_ifs
    · exact ne_of_head? (c := '/') (by simp) (by decide)
    · decide
  have hsetting : ∀ name value : String, name.toList.head? = some 'S' → name ++ value ≠ "--mount" := by
    intro name value hname
    refine ne_of_head? (c := 'S') ?_ (by decide)
    rw [String.toList_append, List.head?_append, hname]
    rfl
  simp only [List.cons_append, List.nil_append]
  rw [mounts_cons_of_ne (by decide), mounts_cons_of_ne (by decide), mounts_cons_of_ne (by decide),
    mounts_cons_of_ne hnetwork, mounts_cons_of_ne (by decide), mounts_cons_of_ne (append_m_ne _),
    mounts_cons_of_ne (by decide), mounts_cons_of_ne (by decide), mounts_cons_of_ne (by decide),
    mounts_cons_of_ne (by decide), mounts_cons_of_ne (by decide), mounts,
    mounts_cons_of_ne (by decide), mounts_cons_of_ne (hwork _), mounts_cons_of_ne (by decide),
    mounts_cons_of_ne (by decide), mounts_cons_of_ne (by decide),
    mounts_cons_of_ne (hsetting _ _ (by decide)), mounts_cons_of_ne (by decide),
    mounts_cons_of_ne (hsetting _ _ (by decide))]

theorem mounts_image_eq_nil_iff {image runner : String} (text : String)
    (h : runner ∈ ["python", "sh", "node"]) :
    mounts [image, runner, "/workspace/" ++ text] = [] ↔ image ≠ "--mount" := by
  refine ⟨?_, fun himage => ?_⟩
  · rintro hnil rfl
    cases hnil
  · have hrunner : runner ≠ "--mount" := by
      rintro rfl
      revert h
      decide
    rw [mounts_cons_of_ne himage, mounts_cons_of_ne hrunner,
      mounts_cons_of_ne (ne_of_head? (c := '/') (by simp) (by decide)), mounts]

/-! ## The mount -/

theorem valueOf?_append (key value : String) : valueOf? key (key ++ "=" ++ value) = some value := by
  simp [valueOf?]

theorem mem_of_valueOf? {key field value : String} {c : Char} (h : valueOf? key field = some value)
    (hc : c ∈ value.toList) : c ∈ field.toList := by
  unfold valueOf? at h
  obtain ⟨-, h⟩ := Option.ite_none_right_eq_some.mp h
  rw [← Option.some.inj h, String.toList_ofList] at hc
  exact List.mem_of_mem_drop hc

/-- A source is read without the separator. -/
theorem comma_notMem_of_readMount {text source : String} {readOnly : Bool}
    (h : readMount text = some ⟨some source, readOnly⟩) : ',' ∉ source.toList := by
  unfold readMount at h
  obtain ⟨-, h⟩ := Option.ite_none_left_eq_some.mp h
  obtain ⟨hsource, -⟩ := Mount.mk.inj (Option.some.inj h)
  obtain ⟨field, hfield, hvalue⟩ := List.mem_filterMap.mp (List.mem_of_getLast? hsource)
  obtain ⟨chars, hchars, rfl⟩ := List.mem_map.mp hfield
  intro hcomma
  have hmem := mem_of_valueOf? hvalue hcomma
  rw [String.toList_ofList] at hmem
  have hsep : (',' == ',') = false := not_break_of_mem_splitOnP hchars ',' hmem
  cases hsep

/-- The mount is read as it was meant exactly if the directory has no character of the record. -/
theorem readMount_eq_iff (directory : String) :
    readMount ("type=bind,src=" ++ directory ++ ",dst=/workspace,readonly") =
        some ⟨some directory, true⟩ ↔
      ∀ c ∈ [',', '"', '\n'], c ∉ directory.toList := by
  constructor
  · intro h c hc hmem
    simp only [List.mem_cons, List.not_mem_nil, or_false] at hc
    rcases hc with rfl | rfl | rfl
    · exact comma_notMem_of_readMount h hmem
    all_goals
      rw [readMount, if_pos (by simp [hmem])] at h
      cases h
  · intro h
    have hcomma : ',' ∉ directory.toList := h ',' (by simp)
    have hquote : '"' ∉ directory.toList := h '"' (by simp)
    have hbreak : '\n' ∉ directory.toList := h '\n' (by simp)
    -- without a comma there are four fields
    have hfields : segments ',' ("type=bind,src=" ++ directory ++ ",dst=/workspace,readonly") =
        ["type=bind", "src=" ++ directory, "dst=/workspace", "readonly"] := by
      have htext : "type=bind,src=" ++ directory ++ ",dst=/workspace,readonly" = joinSegments ','
          ["type=bind", "src=" ++ directory, "dst=/workspace", "readonly"] := by
        simp [← String.toList_inj, joinSegments, List.intercalate]
      rw [htext]
      exact segments_joinSegments (by simp [hcomma]) (by simp)
    have hsource : valueOf? "src" ("src=" ++ directory) = some directory :=
      valueOf?_append "src" directory
    have hothers : valueOf? "src" "type=bind" = none ∧ valueOf? "src" "dst=/workspace" = none ∧
        valueOf? "src" "readonly" = none := by decide
    rw [readMount, if_neg (by simp [hquote, hbreak]), hfields]
    simp [hsource, hothers]

/-! ## Containment -/

theorem exists_mounted_iff (h : resolved cwd entryPath = resolved cwd allowedDir ++ names)
    (hsupported : Supported entryPath) :
    (∃ args, buildDockerArgs cwd entryPath allowedDir input config = .ok args ∧
        Mounted cwd entryPath allowedDir args) ↔
      (∀ c ∈ [',', '"', '\n'], c ∉ (absoluteText (resolved cwd allowedDir)).toList) ∧
        config.dockerImage ≠ "--mount" ∧ ∀ name ∈ names, '\\' ∉ name.toList := by
  obtain ⟨args, runner, hrunner, hargs, hlast, hmounts⟩ :=
    exists_buildDockerArgs cwd allowedDir input config hsupported
  have hmount : mounts args = [some ⟨some (absoluteText (resolved cwd allowedDir)), true⟩] ↔
      (∀ c ∈ [',', '"', '\n'], c ∉ (absoluteText (resolved cwd allowedDir)).toList) ∧
        config.dockerImage ≠ "--mount" := by
    rw [hmounts, List.cons_eq_cons, readMount_eq_iff, mounts_image_eq_nil_iff _ hrunner, ne_eq,
      getDockerImage_eq_iff]
  have hpath : (∃ containerPath names, args.getLast? = some containerPath ∧
        resolve [] containerPath = "workspace" :: names ∧
        resolved cwd entryPath = resolved cwd allowedDir ++ names) ↔
      ∀ name ∈ names, '\\' ∉ name.toList := by
    rw [hlast, ← container_path_iff h]
    simp only [Option.some.injEq, exists_and_left, exists_eq_left']
  simp only [hargs, Except.ok.injEq, exists_eq_left', Mounted]
  rw [hmount, hpath, and_assoc]

/-- Containment holds exactly where no name right below the directory begins with two dots, the
directory can stand in the record of a mount, the image is no option and no name below the directory
has a backslash. -/
theorem contained_iff (cwd entryPath allowedDir : String) (input : Option Json)
    (config : SandboxConfig) :
    Contained cwd entryPath allowedDir input config ↔
      (∀ name rest, resolved cwd entryPath = resolved cwd allowedDir ++ name :: rest →
        ¬ ['.', '.'] <+: name.toList) ∧
      ∀ names, resolved cwd entryPath = resolved cwd allowedDir ++ names → Supported entryPath →
        (∀ c ∈ [',', '"', '\n'], c ∉ (absoluteText (resolved cwd allowedDir)).toList) ∧
          config.dockerImage ≠ "--mount" ∧ ∀ name ∈ names, '\\' ∉ name.toList := by
  rw [Contained, isPathAllowed_iff]
  constructor
  · rintro ⟨hallowed, hcontainer⟩
    have hdots : ∀ name rest, resolved cwd entryPath = resolved cwd allowedDir ++ name :: rest →
        ¬ ['.', '.'] <+: name.toList := by
      intro name rest heq
      obtain ⟨names, hnames, hhead⟩ := hallowed.mpr ⟨name :: rest, heq.symm⟩
      obtain rfl : name :: rest = names := List.append_cancel_left (heq.symm.trans hnames)
      exact hhead name rfl
    refine ⟨hdots, fun names heq hsupported => ?_⟩
    -- the container is asked about only if the path is allowed
    rw [← exists_mounted_iff heq hsupported]
    refine hcontainer ⟨names, heq, fun name hname => ?_⟩ hsupported
    obtain ⟨rest, rfl⟩ := List.head?_eq_some_iff.mp hname
    exact hdots name rest heq
  · rintro ⟨hdots, hcontainer⟩
    refine ⟨⟨?_, ?_⟩, ?_⟩
    · rintro ⟨names, heq, -⟩
      exact ⟨names, heq.symm⟩
    · rintro ⟨names, heq⟩
      refine ⟨names, heq.symm, fun name hname => ?_⟩
      obtain ⟨rest, rfl⟩ := List.head?_eq_some_iff.mp hname
      exact hdots name rest heq.symm
    · rintro ⟨names, heq, -⟩ hsupported
      exact (exists_mounted_iff heq hsupported).mpr (hcontainer names heq hsupported)

/-- A directory whose name begins with two dots is inside, and its entry is refused. -/
theorem not_contained_dots :
    ¬ Contained "/home" "/skills/..cache/run.js" "/skills" none ⟨false, .ofInt 256, ""⟩ := by
  rintro ⟨hallowed, -⟩
  have hrefused : isPathAllowed "/home" "/skills/..cache/run.js" "/skills" = false := by
    decide +kernel
  have hinside : resolved "/home" "/skills" <+: resolved "/home" "/skills/..cache/run.js" := by
    decide +kernel
  rw [hallowed.mpr hinside] at hrefused
  cases hrefused

end ThinkLocal.Skills.Sandbox
