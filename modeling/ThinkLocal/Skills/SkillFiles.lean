import ThinkLocal.Foundation.LastMatch
import ThinkLocal.Js.Json
import ThinkLocal.Skills.Discovery

/-!
# The files of announced skills

`installSkill` of `skill-manifest.ts`, `installClaudeSkill` of `skill-adapter-claude.ts` and the loop
of `handlePeerAnnouncement` over both.  The files of a skill are found by its name alone, and
`installSkill` overwrites: who announced a name last is the origin that its manifest shows.
-/

namespace ThinkLocal.Skills

open Foundation Js

/-! ## Manifests -/

/-- The neutral manifest. -/
structure SkillManifest where
  name : String
  version : String
  description : String
  origin : String
  capabilities : List String
  /-- `requires.mcp_tools`. -/
  mcp_tools : Option (List String) := none
  signature : Option String := none
  format_version : Number
  /-- Fields of newer versions. -/
  rest : List (String × Json) := []

def strings (texts : List String) : Json := .array (texts.map .string)

def SkillManifest.json (m : SkillManifest) : Json :=
  .object ([("name", .string m.name), ("version", .string m.version),
      ("description", .string m.description), ("origin", .string m.origin),
      ("capabilities", strings m.capabilities)] ++
    (m.mcp_tools.map fun tools => ("requires", Json.object [("mcp_tools", strings tools)])).toList ++
    (m.signature.map fun signature => ("signature", Json.string signature)).toList ++
    [("format_version", .number m.format_version)] ++ m.rest)

/-- The text of `manifest.json`. -/
def SkillManifest.raw (m : SkillManifest) : String := m.json.stringify 2

/-- The manifest for an announced skill. -/
def AnnouncedSkill.manifest (skill : AnnouncedSkill) (peerAgentId : String) : SkillManifest where
  name := skill.name
  version := skill.version
  description := skill.description
  origin := peerAgentId
  capabilities := skill.capabilities
  format_version := .finite 1

/-! ## Files -/

/-- What is found under a name: in the directory of the skills and in that of Claude Code. -/
inductive SkillFile
  | directory (name : String)
  | manifest (name : String)
  | prompt (name : String)
  | claude (name : String)
  deriving DecidableEq, Repr

/-- The contents of the files; that of a directory is empty. -/
abbrev SkillFiles := InsertionMap SkillFile String

structure InstalledSkill where
  manifest : SkillManifest
  hasPrompt : Bool

/-- `installSkill`; `fails` are the files that cannot be written. -/
def installSkill (fails : SkillFile → Bool) (files : SkillFiles) (manifest : SkillManifest)
    (prompt : Option String) : SkillFiles × Option InstalledSkill :=
  if isSkillName manifest.name = false ∨ fails (.directory manifest.name) then (files, none)
  else
    let files := files.set (.directory manifest.name) ""
    if fails (.manifest manifest.name) then (files, none)
    else
      let files := files.set (.manifest manifest.name) manifest.raw
      match prompt.filter (· ≠ "") with
      | none => (files, some ⟨manifest, prompt.isSome⟩)
      | some text =>
          if fails (.prompt manifest.name) then (files, none)
          else (files.set (.prompt manifest.name) text, some ⟨manifest, prompt.isSome⟩)

def renderClaudeSkillMarkdown (manifest : SkillManifest) (prompt : Option String) : String :=
  let header := "\n".intercalate
    ["---", "name: " ++ manifest.name, "version: " ++ manifest.version,
      "origin: " ++ manifest.origin, "source: thinklocal-mesh",
      "capabilities: " ++ ", ".intercalate manifest.capabilities, "---", ""]
  match prompt.filter (· ≠ "") with
  | some text => header ++ text
  | none =>
      let tools := (manifest.mcp_tools.getD []).map fun tool => "- `" ++ tool ++ "`"
      "\n".intercalate ([header, "# " ++ manifest.name, "", manifest.description, "",
          "## Capabilities", ""] ++
        (manifest.capabilities.map fun c => "- `" ++ c ++ "`") ++
        ["", "## Usage", "",
          "This skill was automatically discovered from a ThinkLocal mesh peer.",
          "Origin: " ++ manifest.origin, ""] ++
        if tools = [] then [] else ["## Required MCP Tools", ""] ++ tools ++ [""])

/-- The check of the name in the adapter. -/
def isBasename (name : String) : Bool :=
  name ≠ "" ∧ name ≠ "." ∧ name ≠ ".." ∧ '/' ∉ name.toList

/-- The prompt that the adapter reads; `none` where the file is missing. -/
def readPrompt (files : SkillFiles) (skill : InstalledSkill) : Option (Option String) :=
  if skill.hasPrompt then (files.get (.prompt skill.manifest.name)).map some else some none

/-- `installClaudeSkill`; an exception is caught by the caller, and nothing is written. -/
def installClaudeSkill (fails : SkillFile → Bool) (files : SkillFiles) (skill : InstalledSkill) :
    SkillFiles :=
  match readPrompt files skill with
  | none => files
  | some prompt =>
      let content := renderClaudeSkillMarkdown skill.manifest prompt
      if isBasename skill.manifest.name = false ∨ fails (.claude skill.manifest.name) ∨
          files.get (.claude skill.manifest.name) = some content then files
      else files.set (.claude skill.manifest.name) content

/-! ## The loop over an announcement -/

/-- What an announcement finds: the files that cannot be written, the hash of a manifest and
the readings of the clock. -/
structure DiscoveryEnv where
  fails : SkillFile → Bool
  computeManifestHash : SkillManifest → String
  clock : Nat → Int

/-- Can all files of the skill be written? -/
def completes (fails : SkillFile → Bool) (name : String) (prompt : Option String) : Bool :=
  ! fails (.directory name) && ! fails (.manifest name) &&
    ! ((prompt.filter (· ≠ "")).isSome && fails (.prompt name))

def DiscoveryEnv.surroundings (env : DiscoveryEnv) : Surroundings where
  writeFails skill := ! completes env.fails skill.name skill.prompt
  manifestHash peerAgentId skill := env.computeManifestHash (skill.manifest peerAgentId)
  clock := env.clock

/-- The files and the activation store of a node. -/
structure SkillHost where
  files : SkillFiles
  activation : CapabilityActivationStore

/-- The loop over the skills, with the number of readings of the clock. -/
def discoverSkills (env : DiscoveryEnv) (peerAgentId : String) :
    SkillHost × Nat → Nat → List AnnouncedSkill → SkillHost × Option Nat
  | s, installed, [] => (s.1, some installed)
  | s, installed, skill :: rest =>
      match installSkill env.fails s.1.files (skill.manifest peerAgentId) skill.prompt with
      | (files, none) => ({ s.1 with files := files }, none)
      | (files, some result) =>
          let activated := skill.capabilities.foldl
            (announceCapability env.surroundings peerAgentId skill) (s.1.activation, s.2)
          discoverSkills env peerAgentId
            (⟨installClaudeSkill env.fails files result, activated.1⟩, activated.2)
            (if isNewDiscovery s.1.activation peerAgentId skill then installed + 1 else installed)
            rest

/-- `handlePeerAnnouncement` on the files and the store. -/
def SkillHost.handlePeerAnnouncement (host : SkillHost) (env : DiscoveryEnv) (peerAgentId : String)
    (skills : List AnnouncedSkill) : SkillHost × Option Nat :=
  discoverSkills env peerAgentId (host, 0) 0 skills

variable {fails : SkillFile → Bool} {files : SkillFiles} {manifest : SkillManifest}
  {prompt : Option String} {env : DiscoveryEnv} {peerAgentId : String}

/-- `installSkill` returns exactly if the name is accepted and every file can be written. -/
theorem installSkill_isSome :
    (installSkill fails files manifest prompt).2.isSome =
      (isSkillName manifest.name && completes fails manifest.name prompt) := by
  unfold installSkill completes
  cases isSkillName manifest.name <;> cases fails (.directory manifest.name) <;>
    cases fails (.manifest manifest.name) <;> cases prompt.filter (· ≠ "") <;>
    cases fails (.prompt manifest.name) <;> rfl

/-- The store of the loop is that of the loop over the store. -/
theorem discoverSkills_activation (skills : List AnnouncedSkill) (s : SkillHost × Nat)
    (installed : Nat) :
    ((discoverSkills env peerAgentId s installed skills).1.activation,
      (discoverSkills env peerAgentId s installed skills).2) =
      announceSkills env.surroundings peerAgentId (s.1.activation, s.2) installed skills := by
  induction skills generalizing s installed with
  | nil => rfl
  | cons skill rest ih =>
      have hinstalls : (installSkill env.fails s.1.files (skill.manifest peerAgentId)
          skill.prompt).2.isSome = env.surroundings.installs skill := by
        rw [installSkill_isSome, Surroundings.installs]
        exact congrArg _ (Bool.not_not _).symm
      rw [discoverSkills, announceSkills, ← hinstalls]
      split
      · next files hinstall =>
          rw [hinstall]
          rfl
      · next files result hinstall =>
          rw [hinstall]
          exact ih _ _

end ThinkLocal.Skills
