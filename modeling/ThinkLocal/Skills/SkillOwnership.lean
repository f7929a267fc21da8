import ThinkLocal.Skills.SkillFiles

/-!
# Who writes the files of a skill

Runs of announcements and local installations.  The files of a skill are written by those who list its
name, and the latest one wins, whoever was there before.
-/

namespace ThinkLocal.Skills

open Foundation

/-! ## Calls -/

inductive SkillCall
  | install (fails : SkillFile → Bool) (manifest : SkillManifest) (prompt : Option String)
  | announcement (env : DiscoveryEnv) (peerAgentId : String) (skills : List AnnouncedSkill)

def SkillHost.call (host : SkillHost) : SkillCall → SkillHost
  | .install fails manifest prompt =>
      { host with files := (installSkill fails host.files manifest prompt).1 }
  | .announcement env peerAgentId skills => (host.handlePeerAnnouncement env peerAgentId skills).1

def SkillHost.run (host : SkillHost) (calls : List SkillCall) : SkillHost :=
  calls.foldl SkillHost.call host

/-! ## What is written -/

/-- A call of `installSkill`. -/
structure InstallAttempt where
  fails : SkillFile → Bool
  manifest : SkillManifest
  prompt : Option String

/-- What the attempt writes to a file. -/
def InstallAttempt.writes (a : InstallAttempt) : SkillFile → Option String
  | .directory name =>
      if isSkillName name ∧ a.manifest.name = name ∧ ¬ a.fails (.directory name) then some ""
      else none
  | .manifest name =>
      if isSkillName name ∧ a.manifest.name = name ∧ ¬ a.fails (.directory name) ∧
          ¬ a.fails (.manifest name) then some a.manifest.raw
      else none
  | .prompt name =>
      if isSkillName name ∧ a.manifest.name = name ∧ ¬ a.fails (.directory name) ∧
          ¬ a.fails (.manifest name) ∧ ¬ a.fails (.prompt name) then a.prompt.filter (· ≠ "")
      else none
  | .claude _ => none

/-- The installation of an announced skill. -/
def DiscoveryEnv.attempt (env : DiscoveryEnv) (peerAgentId : String) (skill : AnnouncedSkill) :
    InstallAttempt := ⟨env.fails, skill.manifest peerAgentId, skill.prompt⟩

/-- The skills that the loop gets to: an exception ends it. -/
def reached (env : DiscoveryEnv) (skills : List AnnouncedSkill) : List AnnouncedSkill :=
  skills.takeWhile env.surroundings.installs ++
    (skills.dropWhile env.surroundings.installs).take 1

def SkillCall.attempts : SkillCall → List InstallAttempt
  | .install fails manifest prompt => [⟨fails, manifest, prompt⟩]
  | .announcement env peerAgentId skills =>
      (reached env skills).map (env.attempt peerAgentId)

variable {host : SkillHost} {env : DiscoveryEnv} {peerAgentId name : String} {file : SkillFile}
  {skill : AnnouncedSkill} {skills : List AnnouncedSkill}

theorem get_installSkill (files : SkillFiles) (a : InstallAttempt) (file : SkillFile) :
    (installSkill a.fails files a.manifest a.prompt).1.get file =
      (a.writes file).or (files.get file) := by
  obtain ⟨fails, manifest, prompt⟩ := a
  unfold installSkill
  dsimp only
  split_ifs with hrefused hmanifest
  · have hnone : (InstallAttempt.mk fails manifest prompt).writes file = none := by
      rcases hrefused with hname | hdirectory <;> cases file <;> grind [InstallAttempt.writes]
    rw [hnone]
    rfl
  · cases file <;> grind [InstallAttempt.writes, InsertionMap.get_set]
  · -- the manifest is written, but not the prompt
    cases hprompt : prompt.filter (· ≠ "") <;> cases file <;>
      grind [InstallAttempt.writes, InsertionMap.get_set]
  · cases hprompt : prompt.filter (· ≠ "") <;> cases file <;>
      grind [InstallAttempt.writes, InsertionMap.get_set]

/-- The adapter writes the file of its own. -/
theorem get_installClaudeSkill (fails : SkillFile → Bool) (files : SkillFiles)
    (result : InstalledSkill) (file : SkillFile) :
    (installClaudeSkill fails files result).get file = files.get file ∨
      file = .claude result.manifest.name ∧ ∃ prompt,
        (installClaudeSkill fails files result).get file =
          some (renderClaudeSkillMarkdown result.manifest prompt) := by
  unfold installClaudeSkill
  cases readPrompt files result with
  | none => exact .inl rfl
  | some prompt =>
      dsimp only
      split_ifs
      · exact .inl rfl
      · by_cases hfile : file = .claude result.manifest.name
        · refine .inr ⟨hfile, prompt, ?_⟩
          rw [hfile, InsertionMap.get_set_self]
        · exact .inl (InsertionMap.get_set_of_ne _ _ hfile)

theorem manifest_of_installSkill {fails : SkillFile → Bool} {files files' : SkillFiles}
    {manifest : SkillManifest} {prompt : Option String} {result : InstalledSkill}
    (h : installSkill fails files manifest prompt = (files', some result)) :
    result.manifest = manifest := by
  unfold installSkill at h
  split_ifs at h <;> grind

/-! ## What an announcement writes -/

theorem reached_cons_of_installs (h : env.surroundings.installs skill = true) :
    reached env (skill :: skills) = skill :: reached env skills := by
  rw [reached, List.takeWhile_cons, List.dropWhile_cons, if_pos h, if_pos h]
  rfl

theorem reached_cons_of_not_installs (h : ¬ env.surroundings.installs skill = true) :
    reached env (skill :: skills) = [skill] := by
  rw [reached, List.takeWhile_cons, List.dropWhile_cons, if_neg h, if_neg h]
  rfl

theorem mem_of_mem_reached (h : skill ∈ reached env skills) : skill ∈ skills := by
  rcases List.mem_append.mp h with h | h
  · exact List.takeWhile_subset _ h
  · exact List.dropWhile_subset _ (List.mem_of_mem_take h)

theorem installs_iff {files : SkillFiles} : env.surroundings.installs skill = true ↔
    (installSkill env.fails files (skill.manifest peerAgentId) skill.prompt).2.isSome := by
  rw [installSkill_isSome, Surroundings.installs]
  exact Iff.of_eq (congrArg (· = true) (congrArg _ (Bool.not_not _)))

/-- Beside the files of the adapter the loop writes what its installations write. -/
theorem get_discoverSkills (hfile : ∀ name, file ≠ .claude name) (skills : List AnnouncedSkill)
    (s : SkillHost × Nat) (installed : Nat) :
    (discoverSkills env peerAgentId s installed skills).1.files.get file =
      (lastValue (fun a : InstallAttempt => a.writes file)
        ((reached env skills).map (env.attempt peerAgentId))).or (s.1.files.get file) := by
  induction skills generalizing s installed with
  | nil => rfl
  | cons skill rest ih =>
      have hfiles := get_installSkill s.1.files (env.attempt peerAgentId skill) file
      unfold DiscoveryEnv.attempt at hfiles
      have hinstalls : env.surroundings.installs skill = true ↔ (installSkill env.fails s.1.files
          (skill.manifest peerAgentId) skill.prompt).2.isSome := installs_iff
      rw [discoverSkills]
      split
      · next files hinstall =>
          rw [hinstall] at hfiles hinstalls
          have hnot : ¬ env.surroundings.installs skill = true := fun h =>
            absurd (hinstalls.mp h) (by simp)
          rw [reached_cons_of_not_installs hnot, List.map_singleton, lastValue_cons]
          exact hfiles
      · next files result hinstall =>
          rw [hinstall] at hfiles hinstalls
          rw [reached_cons_of_installs (hinstalls.mpr rfl), List.map_cons, lastValue_cons, ih,
            Option.or_assoc]
          congr 1
          -- the adapter writes its own files only
          rcases get_installClaudeSkill env.fails files result file with hsame | ⟨hclaude, -⟩
          · exact hsame.trans hfiles
          · exact absurd hclaude (hfile _)

/-- The file of the adapter is as before, or the rendering of a skill that the peer listed under
this name. -/
theorem claude_discoverSkills (skills : List AnnouncedSkill) (s : SkillHost × Nat)
    (installed : Nat) :
    (discoverSkills env peerAgentId s installed skills).1.files.get (.claude name) =
        s.1.files.get (.claude name) ∨
      ∃ skill ∈ skills, skill.name = name ∧ ∃ prompt,
        (discoverSkills env peerAgentId s installed skills).1.files.get (.claude name) =
          some (renderClaudeSkillMarkdown (skill.manifest peerAgentId) prompt) := by
  induction skills generalizing s installed with
  | nil => exact .inl rfl
  | cons skill rest ih =>
      have hfiles := get_installSkill s.1.files (env.attempt peerAgentId skill) (.claude name)
      unfold DiscoveryEnv.attempt at hfiles
      rw [discoverSkills]
      split
      · next files hinstall =>
          rw [hinstall] at hfiles
          exact .inl hfiles
      · next files result hinstall =>
          rw [hinstall] at hfiles
          have hmanifest := manifest_of_installSkill hinstall
          have hrest := ih (⟨installClaudeSkill env.fails files result, (skill.capabilities.foldl
            (announceCapability env.surroundings peerAgentId skill) (s.1.activation, s.2)).1⟩,
            (skill.capabilities.foldl (announceCapability env.surroundings peerAgentId skill)
              (s.1.activation, s.2)).2)
            (if isNewDiscovery s.1.activation peerAgentId skill then installed + 1 else installed)
          rcases hrest with hsame | ⟨later, hlater, hname, hcontent⟩
          · rw [hsame]
            rcases get_installClaudeSkill env.fails files result (.claude name) with
              hkept | ⟨hname, prompt, hcontent⟩
            · exact .inl (hkept.trans hfiles)
            · rw [hmanifest] at hname hcontent
              refine .inr ⟨skill, List.mem_cons_self, ?_, prompt, hcontent⟩
              exact (SkillFile.claude.inj hname).symm
          · exact .inr ⟨later, List.mem_cons_of_mem _ hlater, hname, hcontent⟩

/-! ## Runs -/

theorem get_call (host : SkillHost) (call : SkillCall) (hfile : ∀ name, file ≠ .claude name) :
    (host.call call).files.get file =
      (lastValue (fun a : InstallAttempt => a.writes file) call.attempts).or
        (host.files.get file) := by
  cases call with
  | install fails manifest prompt =>
      have hfiles := get_installSkill host.files ⟨fails, manifest, prompt⟩ file
      rw [SkillCall.attempts, lastValue_cons]
      exact hfiles
  | announcement env peerAgentId skills => exact get_discoverSkills hfile skills (host, 0) 0

theorem get_run (host : SkillHost) (calls : List SkillCall) (hfile : ∀ name, file ≠ .claude name) :
    (host.run calls).files.get file =
      (lastValue (fun a : InstallAttempt => a.writes file) (calls.flatMap SkillCall.attempts)).or
        (host.files.get file) := by
  induction calls generalizing host with
  | nil => rfl
  | cons call calls ih =>
      have hrest := ih (host.call call)
      rw [get_call host call hfile, ← Option.or_assoc, ← lastValue_append] at hrest
      exact hrest

/-- A peer listed a skill under the name. -/
def Announced (call : SkillCall) (name : String) (content : Option String) : Prop :=
  ∃ env peerAgentId skills, call = .announcement env peerAgentId skills ∧
    ∃ skill ∈ skills, skill.name = name ∧ ∃ prompt,
      content = some (renderClaudeSkillMarkdown (skill.manifest peerAgentId) prompt)

theorem claude_run (host : SkillHost) (calls : List SkillCall) (name : String) :
    (host.run calls).files.get (.claude name) = host.files.get (.claude name) ∨
      ∃ call ∈ calls, Announced call name ((host.run calls).files.get (.claude name)) := by
  induction calls generalizing host with
  | nil => exact .inl rfl
  | cons call calls ih =>
      rcases ih (host.call call) with hsame | ⟨later, hlater, hannounced⟩
      · have hrun : (host.run (call :: calls)).files.get (.claude name) =
            (host.call call).files.get (.claude name) := hsame
        rw [hrun]
        cases call with
        | install fails manifest prompt =>
            exact .inl (get_installSkill host.files ⟨fails, manifest, prompt⟩ (.claude name))
        | announcement env peerAgentId skills =>
            refine (claude_discoverSkills skills (host, 0) 0).imp_right
              fun ⟨skill, hskill, hname, hcontent⟩ => ?_
            exact ⟨_, List.mem_cons_self, env, peerAgentId, skills, rfl, skill, hskill, hname, hcontent⟩
      · exact .inr ⟨later, List.mem_cons_of_mem _ hlater, hannounced⟩

theorem writes_manifest {a : InstallAttempt} {content : String}
    (h : a.writes (.manifest name) = some content) :
    a.manifest.name = name ∧ content = a.manifest.raw := by
  unfold InstallAttempt.writes at h
  dsimp only at h
  split_ifs at h with hwritten
  exact ⟨hwritten.2.1, (Option.some.inj h).symm⟩

theorem writes_prompt {a : InstallAttempt} {content : String}
    (h : a.writes (.prompt name) = some content) :
    a.manifest.name = name ∧ a.prompt = some content := by
  unfold InstallAttempt.writes at h
  dsimp only at h
  split_ifs at h with hwritten
  exact ⟨hwritten.2.1, (Option.filter_eq_some_iff.mp h).1⟩

theorem of_mem_attempts {call : SkillCall} {a : InstallAttempt} (h : a ∈ call.attempts) :
    (∃ fails, call = .install fails a.manifest a.prompt) ∨
      ∃ env peerAgentId skills, call = .announcement env peerAgentId skills ∧
        ∃ skill ∈ skills, a.manifest = skill.manifest peerAgentId ∧ a.prompt = skill.prompt := by
  cases call with
  | install fails manifest prompt =>
      obtain rfl := List.mem_singleton.mp h
      exact .inl ⟨fails, rfl⟩
  | announcement env peerAgentId skills =>
      obtain ⟨skill, hskill, rfl⟩ := List.mem_map.mp h
      exact .inr ⟨env, peerAgentId, skills, rfl, skill, mem_of_mem_reached hskill, rfl, rfl⟩

/-- The files of a skill are written by local installations under its name and by announcements that
list its name, and the latest one wins. -/
theorem skillFiles_latest (host : SkillHost) (calls : List SkillCall) (name : String) :
    (∀ file, file = .manifest name ∨ file = .prompt name →
      (host.run calls).files.get file =
        (lastValue (fun a : InstallAttempt => a.writes file)
          (calls.flatMap SkillCall.attempts)).or (host.files.get file)) ∧
    (∀ call ∈ calls, ∀ a ∈ call.attempts,
      ((∃ fails, call = .install fails a.manifest a.prompt) ∨
        ∃ env peerAgentId skills, call = .announcement env peerAgentId skills ∧
          ∃ skill ∈ skills, a.manifest = skill.manifest peerAgentId ∧ a.prompt = skill.prompt) ∧
      (∀ content, a.writes (.manifest name) = some content →
        a.manifest.name = name ∧ content = a.manifest.raw) ∧
      ∀ content, a.writes (.prompt name) = some content →
        a.manifest.name = name ∧ a.prompt = some content) ∧
    ((host.run calls).files.get (.claude name) = host.files.get (.claude name) ∨
      ∃ call ∈ calls, Announced call name ((host.run calls).files.get (.claude name))) := by
  refine ⟨fun file hfile => get_run host calls ?_, fun call _ a ha => ⟨of_mem_attempts ha,
    fun _ => writes_manifest, fun _ => writes_prompt⟩, claude_run host calls name⟩
  rintro other rfl
  rcases hfile with hfile | hfile <;> cases hfile

/-- A skill as it is announced. -/
def announcedBackup (version : String) : AnnouncedSkill where
  name := "backup"
  version := version
  description := ""
  origin := ""
  capabilities := ["backup"]
  prompt := none

/-- A disk without failures. -/
def plainEnv : DiscoveryEnv where
  fails := fun _ => false
  computeManifestHash := fun manifest => manifest.version
  clock := fun n => n

/-- The node has installed a skill of its own; a peer announces one under the same name. -/
theorem local_skill_replaced :
    ¬ ∀ (host : SkillHost) (env : DiscoveryEnv) (peerAgentId : String)
      (skills : List AnnouncedSkill) (name : String) (manifest : SkillManifest),
      host.files.get (.manifest name) = some manifest.raw → manifest.origin ≠ peerAgentId →
        (host.call (.announcement env peerAgentId skills)).files.get (.manifest name) =
          host.files.get (.manifest name) := by
  intro hall
  let own : SkillManifest := (announcedBackup "1.0.0").manifest "spiffe://thinklocal/host/a/agent/x"
  let host : SkillHost := ⟨(installSkill (fun _ => false) .empty own none).1, .empty⟩
  have hbefore : host.files.get (.manifest "backup") = some own.raw := by decide +kernel
  have hkept := hall host plainEnv "spiffe://thinklocal/host/b/agent/x" [announcedBackup "2.0.0"]
    "backup" own hbefore (by decide)
  have hchanged : (host.call (.announcement plainEnv "spiffe://thinklocal/host/b/agent/x"
      [announcedBackup "2.0.0"])).files.get (.manifest "backup") ≠
        host.files.get (.manifest "backup") := by decide +kernel
  exact hchanged hkept

end ThinkLocal.Skills
