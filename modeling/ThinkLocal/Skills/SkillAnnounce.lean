import ThinkLocal.Js.JsonRoundTrip
import ThinkLocal.Registry.SkillManager
import ThinkLocal.Skills.SkillOwnership

/-!
# The handler of skill announcements

The case `SKILL_ANNOUNCE` of `onMessage` in `index.ts`.  `handleAnnounce` registers every listed skill,
and `handlePeerAnnouncement` installs them one after another until a name is refused; the exception is
caught, so what is listed after that name is registered but neither installed nor activated.
-/

namespace ThinkLocal.Skills

open Foundation Js Registry

/-! ## The handler -/

/-- A node with its files, its activation store and its registry. -/
structure SkillNode where
  host : SkillHost
  registry : CapabilityRegistry
  /-- The ids of the skills that the node offers itself. -/
  localSkills : List String

/-- The announcement for the discovery. -/
def announced (sender : String) (s : Registry.SkillManifest) : AnnouncedSkill where
  name := s.id
  version := s.version
  description := s.description
  origin := sender
  capabilities := [s.id]
  prompt := none

/-- The handler; an exception of `handleAnnounce` leaves it, one of the discovery is caught. -/
def onSkillAnnounce (env : DiscoveryEnv) (clock : Nat → String) (node : SkillNode) (sender : String)
    (payload : List Registry.SkillManifest) : SkillNode :=
  match Registry.handleAnnounce node.registry node.localSkills clock sender payload with
  | (registry, none) => { node with registry := registry }
  | (registry, some _) =>
      { node with
        registry := registry
        host := (node.host.handlePeerAnnouncement env sender (payload.map (announced sender))).1 }

/-! ## What is promised -/

/-- The manifest that a skill of the sender is installed with. -/
def neutral (sender : String) (s : Registry.SkillManifest) : SkillManifest :=
  (announced sender s).manifest sender

/-- The skill is installed and has its row; a row that was revoked stays revoked. -/
structure Installed (env : DiscoveryEnv) (sender : String) (before after : SkillHost)
    (s : Registry.SkillManifest) : Prop where
  directory : after.files.get (.directory s.id) = some ""
  manifest : after.files.get (.manifest s.id) = some (neutral sender s).raw
  row : ∃ row, after.activation.get (s.id, sender) = some row ∧ row.version = s.version ∧
    row.manifest_hash = some (env.computeManifestHash (neutral sender s)) ∧
    announcedState (before.activation.stateOf (s.id, sender)) = some row.state

/-- The skill is in the registry, unless the node offers one with its id itself. -/
def Listed (node : SkillNode) (sender : String) (s : Registry.SkillManifest) : Prop :=
  s.id ∉ node.localSkills → ∃ reading now,
    docEntry node.registry.capabilities (makeKey sender s.id) =
      some (CapabilityRegistry.registered (s.remote sender reading) now)

/-- The last skill of the list with the id. -/
def lastWith (id : String) (payload : List Registry.SkillManifest) : Option Registry.SkillManifest :=
  lastMatch (fun s => s.id = id) payload

/-- Every skill with an accepted id is installed, activated and listed; where a list has an id twice,
the last one counts.  An id that is refused leaves nothing. -/
structure Unspoiled (env : DiscoveryEnv) (sender : String) (before after : SkillNode)
    (payload : List Registry.SkillManifest) : Prop where
  accepted : ∀ id s, isSkillName id = true → lastWith id payload = some s →
    Installed env sender before.host after.host s ∧ Listed after sender s
  refused : ∀ s ∈ payload, isSkillName s.id = false →
    after.host.files.get (.directory s.id) = before.host.files.get (.directory s.id) ∧
      after.host.activation.get (s.id, sender) = before.host.activation.get (s.id, sender)

/-- The skills before the first refused id. -/
def beforeRefused (payload : List Registry.SkillManifest) : List Registry.SkillManifest :=
  payload.takeWhile fun s => isSkillName s.id

/-- The skill is listed before the first refused id, in the same version and with the same
description, or it was in place before. -/
def InTime (env : DiscoveryEnv) (sender : String) (before : SkillHost)
    (payload : List Registry.SkillManifest) (id : String) (s : Registry.SkillManifest) : Prop :=
  match lastWith id (beforeRefused payload) with
  | some first => first.version = s.version ∧ first.description = s.description
  | none => Installed env sender before before s

/-! ## Rows -/

variable {env : DiscoveryEnv} {surroundings : Surroundings} {sender : String} {key : CapabilityKey}
  {store : CapabilityActivationStore}

/-- The version and the hash of a row. -/
def describedBy (store : CapabilityActivationStore) (key : CapabilityKey) :
    Option (String × Option String) :=
  (store.get key).map fun row => (row.version, row.manifest_hash)

theorem describedBy_put (row : CapabilityActivationRow) (key' : CapabilityKey) :
    describedBy (store.put key row) key' =
      if key' = key then some (row.version, row.manifest_hash) else describedBy store key' := by
  unfold describedBy CapabilityActivationStore.get CapabilityActivationStore.put
  dsimp only
  rw [InsertionMap.get_set]
  split <;> rfl

theorem describedBy_discover (version : String) (hash : Option String) (now : Int)
    (key' : CapabilityKey) :
    describedBy (store.discover key version hash now).1 key' =
      if key' = key then some (version, hash) else describedBy store key' := by
  unfold CapabilityActivationStore.discover
  split
  · exact describedBy_put _ _
  · exact describedBy_put _ _

theorem describedBy_activate (now : Int) (key' : CapabilityKey) :
    describedBy (store.activate key now).1 key' = describedBy store key' := by
  unfold CapabilityActivationStore.activate CapabilityActivationStore.update
  cases hrow : store.get key with
  | none => rfl
  | some row =>
      dsimp only
      split_ifs
      · rw [describedBy_put]
        split_ifs with hkey
        · rw [hkey, describedBy, hrow]
          rfl
        · rfl
      · rfl

theorem describedBy_announceCapability (skill : AnnouncedSkill) (s : CapabilityActivationStore × Nat)
    (capId : String) :
    describedBy (announceCapability surroundings sender skill s capId).1 key =
      if key = (capId, sender) then
        some (skill.version, some (surroundings.manifestHash sender skill))
      else describedBy s.1 key := by
  unfold announceCapability
  dsimp only
  rw [describedBy_activate, describedBy_discover]

theorem describedBy_announceCapabilities (skill : AnnouncedSkill) (capabilities : List String)
    (s : CapabilityActivationStore × Nat) (capId : String) :
    describedBy (capabilities.foldl (announceCapability surroundings sender skill) s).1
        (capId, sender) =
      if capId ∈ capabilities then
        some (skill.version, some (surroundings.manifestHash sender skill))
      else describedBy s.1 (capId, sender) := by
  induction capabilities generalizing s with
  | nil => rfl
  | cons first rest ih =>
      rw [List.foldl_cons, ih, describedBy_announceCapability]
      by_cases hrest : capId ∈ rest
      · rw [if_pos hrest, if_pos (List.mem_cons_of_mem _ hrest)]
      · rw [if_neg hrest]
        by_cases hfirst : capId = first
        · rw [if_pos (congrArg (·, sender) hfirst), if_pos (hfirst ▸ List.mem_cons_self)]
        · rw [if_neg fun h => hfirst (congrArg Prod.fst h),
            if_neg fun h => (List.mem_cons.mp h).elim hfirst hrest]

/-- The last skill before an exception that offers the capability describes its row. -/
theorem describedBy_announceSkills (skills : List AnnouncedSkill)
    (s : CapabilityActivationStore × Nat) (installed : Nat) (capId : String) :
    describedBy (announceSkills surroundings sender s installed skills).1 (capId, sender) =
      ((lastMatch (fun skill => capId ∈ skill.capabilities)
        (skills.takeWhile surroundings.installs)).map fun skill =>
          (skill.version, some (surroundings.manifestHash sender skill))).or
        (describedBy s.1 (capId, sender)) := by
  induction skills generalizing s installed with
  | nil => rfl
  | cons skill rest ih =>
      rw [announceSkills]
      by_cases hinstalls : surroundings.installs skill = true
      · rw [if_pos hinstalls, ih, describedBy_announceCapabilities, List.takeWhile_cons,
          if_pos hinstalls]
        unfold lastMatch
        rw [List.filter_cons]
        split_ifs with hcap hdecide hdecide
        · rw [List.getLast?_cons]
          cases (List.filter _ _).getLast? <;> rfl
        · exact absurd (decide_eq_true hcap) hdecide
        · exact absurd (of_decide_eq_true hdecide) hcap
        · rfl
      · rw [if_neg hinstalls, List.takeWhile_cons, if_neg hinstalls]
        rfl

theorem get_announceCapability_of_ne (skill : AnnouncedSkill) (s : CapabilityActivationStore × Nat)
    {capId : String} (hkey : key ≠ (capId, sender)) :
    (announceCapability surroundings sender skill s capId).1.get key = s.1.get key := by
  have hdiscover : ∀ hash now, (s.1.discover (capId, sender) skill.version hash now).1.get key =
      s.1.get key := by
    intro hash now
    unfold CapabilityActivationStore.discover
    split
    · exact InsertionMap.get_set_of_ne _ _ hkey
    · exact InsertionMap.get_set_of_ne _ _ hkey
  have hactivate : ∀ (store : CapabilityActivationStore) now,
      (store.activate (capId, sender) now).1.get key = store.get key := by
    intro store now
    unfold CapabilityActivationStore.activate CapabilityActivationStore.update
    split
    · split_ifs
      · exact InsertionMap.get_set_of_ne _ _ hkey
      · rfl
    · rfl
  unfold announceCapability
  dsimp only
  rw [hactivate, hdiscover]

/-- A row that no skill of the list is about is left alone. -/
theorem get_announceSkills_of_notMem (skills : List AnnouncedSkill)
    (s : CapabilityActivationStore × Nat) (installed : Nat) {capId : String}
    (h : ∀ skill ∈ skills, surroundings.installs skill = true → capId ∉ skill.capabilities) :
    (announceSkills surroundings sender s installed skills).1.get (capId, sender) =
      s.1.get (capId, sender) := by
  have hcapabilities : ∀ (skill : AnnouncedSkill) (capabilities : List String)
      (s : CapabilityActivationStore × Nat), capId ∉ capabilities →
        (capabilities.foldl (announceCapability surroundings sender skill) s).1.get
          (capId, sender) = s.1.get (capId, sender) := by
    intro skill capabilities
    induction capabilities with
    | nil => exact fun _ _ => rfl
    | cons first rest ih =>
        intro s hnot
        rw [List.foldl_cons, ih _ fun hmem => hnot (List.mem_cons_of_mem _ hmem)]
        refine get_announceCapability_of_ne skill s fun hkey => ?_
        have hfirst : capId = first := congrArg Prod.fst hkey
        exact hnot (hfirst ▸ List.mem_cons_self)
  induction skills generalizing s installed with
  | nil => rfl
  | cons skill rest ih =>
      rw [announceSkills]
      by_cases hinstalls : surroundings.installs skill = true
      · rw [if_pos hinstalls, ih _ _ fun later hlater => h later (List.mem_cons_of_mem _ hlater)]
        exact hcapabilities skill _ s (h skill List.mem_cons_self hinstalls)
      · rw [if_neg hinstalls]

/-! ## After the handler -/

variable {payload : List Registry.SkillManifest} {before after : SkillHost}
  {s : Registry.SkillManifest} {id : String}

theorem row_iff {version hash : String} :
    (∃ row, after.activation.get key = some row ∧ row.version = version ∧
      row.manifest_hash = some hash ∧
      announcedState (before.activation.stateOf key) = some row.state) ↔
    describedBy after.activation key = some (version, some hash) ∧
      after.activation.stateOf key = announcedState (before.activation.stateOf key) := by
  unfold describedBy CapabilityActivationStore.stateOf
  cases after.activation.get key with
  | none => exact iff_of_false nofun nofun
  | some row =>
      simp only [Option.some.injEq, Option.map_some, Prod.mk.injEq, exists_eq_left', and_assoc]
      exact and_congr_right fun _ => and_congr_right fun _ => eq_comm

theorem installs_announced (hdisk : ∀ file, env.fails file = false) :
    env.surroundings.installs (announced sender s) = isSkillName s.id := by
  have hcompletes : completes env.fails (announced sender s).name (announced sender s).prompt =
      true := by
    unfold completes
    simp [hdisk]
  rw [Surroundings.installs]
  have hwrite : env.surroundings.writeFails (announced sender s) = false :=
    congrArg not hcompletes
  rw [hwrite, Bool.not_false, Bool.and_true]
  rfl

theorem takeWhile_announced (hdisk : ∀ file, env.fails file = false) :
    (payload.map (announced sender)).takeWhile env.surroundings.installs =
      (beforeRefused payload).map (announced sender) := by
  rw [List.takeWhile_map, beforeRefused]
  congr 2
  funext s
  exact installs_announced hdisk

/-- What the loop writes to a file of a skill with an accepted name. -/
theorem lastValue_reached (hdisk : ∀ file, env.fails file = false) (hid : isSkillName id = true)
    {f : InstallAttempt → Option String} {g : Registry.SkillManifest → String}
    (hf : ∀ s, f (env.attempt sender (announced sender s)) = if s.id = id then some (g s) else none) :
    lastValue f ((reached env (payload.map (announced sender))).map (env.attempt sender)) =
      (lastWith id (beforeRefused payload)).map g := by
  have hrefused : lastValue f ((((payload.map (announced sender)).dropWhile
      env.surroundings.installs).take 1).map (env.attempt sender)) = none := by
    rw [← Option.not_isSome_iff_eq_none]
    intro hsome
    obtain ⟨value, hvalue⟩ := Option.isSome_iff_exists.mp hsome
    obtain ⟨a, ha, hwritten⟩ := mem_of_lastValue hvalue
    obtain ⟨skill, hskill, rfl⟩ := List.mem_map.mp ha
    -- the loop stops at a refused name, and that is not this one
    have hstop := List.head?_dropWhile_not env.surroundings.installs
      (payload.map (announced sender))
    obtain ⟨s, -, rfl⟩ := List.mem_map.mp (List.dropWhile_subset _ (List.mem_of_mem_take hskill))
    cases hdrop : (payload.map (announced sender)).dropWhile env.surroundings.installs with
    | nil =>
        rw [hdrop] at hskill
        cases hskill
    | cons first rest =>
        rw [hdrop] at hskill hstop
        obtain rfl := List.mem_singleton.mp hskill
        have hrefused : isSkillName s.id = false := (installs_announced hdisk).symm.trans hstop
        rw [hf] at hwritten
        split_ifs at hwritten with hsame
        rw [hsame, hid] at hrefused
        cases hrefused
  rw [reached, List.map_append, lastValue_append, hrefused, Option.none_or,
    takeWhile_announced hdisk, List.map_map, lastValue, List.filterMap_map]
  refine lastValue_eq_map_lastMatch g _ fun s _ => ?_
  rw [Function.comp, Function.comp, hf]
  simp only [decide_eq_true_eq]

/-- The fields of the manifest of an announced skill. -/
def neutralFields (sender : String) (s : Registry.SkillManifest) : List (String × Js.Json) :=
  [("name", .string s.id), ("version", .string s.version), ("description", .string s.description),
    ("origin", .string sender), ("capabilities", strings [s.id]),
    ("format_version", .number (.finite 1))]

theorem json_neutral : (neutral sender s).json = .object (neutralFields sender s) := rfl

/-- The text of a manifest shows the version and the description. -/
theorem eq_of_raw {s s' : Registry.SkillManifest}
    (h : (neutral sender s).raw = (neutral sender s').raw) :
    s.version = s'.version ∧ s.description = s'.description := by
  have hparsed := congrArg Json.parse h
  rw [SkillManifest.raw, SkillManifest.raw, Json.parse_stringify, Json.parse_stringify,
    Option.some.injEq, json_neutral, json_neutral] at hparsed
  have hobject := Json.object.inj hparsed
  have hkeys : ∀ s, ((neutralFields sender s).map Prod.fst).Nodup := by
    intro s
    simp [neutralFields]
  have hfield : ∀ key, (Json.fieldOf (neutralFields sender s) key).map Json.reread =
      (Json.fieldOf (neutralFields sender s') key).map Json.reread := by
    intro key
    rw [← Json.fieldOf_reread (hkeys s), hobject, Json.fieldOf_reread (hkeys s')]
  have hversion := hfield "version"
  have hdescription := hfield "description"
  exact ⟨Json.string.inj (Option.some.inj hversion), Json.string.inj (Option.some.inj hdescription)⟩

theorem lastWith_eq_none : lastWith id payload = none ↔ ∀ s ∈ payload, s.id ≠ id := by
  rw [lastWith, lastMatch_eq_none_iff]
  simp only [decide_eq_false_iff_not, ne_eq]

theorem id_of_lastWith (h : lastWith id payload = some s) : s ∈ payload ∧ s.id = id :=
  (mem_of_lastMatch h).imp_right of_decide_eq_true

/-- The host after the discovery. -/
def discovered (env : DiscoveryEnv) (sender : String) (before : SkillHost)
    (payload : List Registry.SkillManifest) : SkillHost :=
  (before.handlePeerAnnouncement env sender (payload.map (announced sender))).1

theorem discovered_activation : (discovered env sender before payload).activation =
    (handlePeerAnnouncement env.surroundings before.activation sender
      (payload.map (announced sender))).1 :=
  congrArg Prod.fst (discoverSkills_activation (payload.map (announced sender)) (before, 0) 0)

theorem describedBy_discovered (sender : String) (before : SkillHost)
    (payload : List Registry.SkillManifest) (id : String) (hdisk : ∀ file, env.fails file = false) :
    describedBy (discovered env sender before payload).activation (id, sender) =
      ((lastWith id (beforeRefused payload)).map fun s =>
        (s.version, some (env.computeManifestHash (neutral sender s)))).or
        (describedBy before.activation (id, sender)) := by
  rw [discovered_activation, handlePeerAnnouncement, describedBy_announceSkills,
    takeWhile_announced hdisk]
  congr 1
  unfold lastWith lastMatch
  rw [List.filter_map, ← List.getLast?_map, List.map_map, ← List.getLast?_map]
  have hmatch : (fun skill : AnnouncedSkill => decide (id ∈ skill.capabilities)) ∘ announced sender =
      fun s => decide (s.id = id) := by
    funext s
    exact decide_eq_decide.mpr (List.mem_singleton.trans eq_comm)
  rw [hmatch]
  rfl

theorem stateOf_discovered (sender : String) (before : SkillHost)
    (payload : List Registry.SkillManifest) (id : String) (hdisk : ∀ file, env.fails file = false) :
    (discovered env sender before payload).activation.stateOf (id, sender) =
      if (lastWith id (beforeRefused payload)).isSome then
        announcedState (before.activation.stateOf (id, sender))
      else before.activation.stateOf (id, sender) := by
  rw [discovered_activation, stateOf_announcement]
  have hlisted : (id, sender).2 = sender ∧ (id, sender).1 ∈ announcedCapabilities env.surroundings
      (payload.map (announced sender)) ↔ (lastWith id (beforeRefused payload)).isSome := by
    rw [announcedCapabilities, takeWhile_announced hdisk, ← Option.ne_none_iff_isSome, ne_eq,
      lastWith_eq_none]
    simp [announced, @eq_comm _ id]
  exact if_congr hlisted rfl rfl

/-- The skill is installed after the discovery exactly if it came in time. -/
theorem installed_iff (hdisk : ∀ file, env.fails file = false) (hid : isSkillName id = true)
    (hlast : lastWith id payload = some s) :
    Installed env sender before (discovered env sender before payload) s ↔
      InTime env sender before payload id s := by
  obtain ⟨-, rfl⟩ := id_of_lastWith hlast
  -- each file holds what the last attempt that was reached wrote, or what it held before
  have hdirectory : (discovered env sender before payload).files.get (.directory s.id) =
      ((lastWith s.id (beforeRefused payload)).map fun _ => "").or
        (before.files.get (.directory s.id)) := by
    refine (get_discoverSkills (fun _ h => SkillFile.noConfusion h) _ _ _).trans (congrArg (Option.or · _) ?_)
    refine lastValue_reached hdisk hid fun other => ?_
    simp [InstallAttempt.writes, DiscoveryEnv.attempt, hdisk, hid, AnnouncedSkill.manifest, announced]
  have hmanifest : (discovered env sender before payload).files.get (.manifest s.id) =
      ((lastWith s.id (beforeRefused payload)).map fun first => (neutral sender first).raw).or
        (before.files.get (.manifest s.id)) := by
    refine (get_discoverSkills (fun _ h => SkillFile.noConfusion h) _ _ _).trans (congrArg (Option.or · _) ?_)
    refine lastValue_reached hdisk hid fun other => ?_
    simp [InstallAttempt.writes, DiscoveryEnv.attempt, hdisk, hid, AnnouncedSkill.manifest, announced,
      neutral]
  have hdescribed := describedBy_discovered sender before payload s.id hdisk
  have hstate := stateOf_discovered sender before payload s.id hdisk
  unfold InTime
  cases hfirst : lastWith s.id (beforeRefused payload) with
  | none =>
      -- the skill stands behind a refused id, so nothing of it was written
      rw [hfirst] at hdirectory hmanifest hdescribed hstate
      dsimp only
      constructor
      · intro h
        refine ⟨hdirectory.symm.trans h.directory, hmanifest.symm.trans h.manifest, ?_⟩
        rw [row_iff]
        have hrow := row_iff.mp h.row
        rw [hdescribed, hstate] at hrow
        exact hrow
      · intro h
        refine ⟨hdirectory.trans h.directory, hmanifest.trans h.manifest, ?_⟩
        rw [row_iff, hdescribed, hstate]
        exact row_iff.mp h.row
  | some first =>
      rw [hfirst] at hdirectory hmanifest hdescribed hstate
      -- the last one before a refused id was written, and the two must have one text
      obtain ⟨-, hsame⟩ := id_of_lastWith hfirst
      dsimp only
      constructor
      · intro h
        exact eq_of_raw (Option.some.inj (hmanifest.symm.trans h.manifest))
      · rintro ⟨hversion, hdescription⟩
        have hneutral : neutral sender first = neutral sender s := by
          unfold neutral announced AnnouncedSkill.manifest
          rw [hsame, hversion, hdescription]
        refine ⟨hdirectory, hneutral ▸ hmanifest, ?_⟩
        rw [row_iff, hdescribed, hstate, Option.map_some, hneutral, hversion]
        exact ⟨rfl, rfl⟩

/-- A refused name leaves neither a directory nor a row. -/
theorem refused_discovered (hdisk : ∀ file, env.fails file = false) (hid : isSkillName id = false) :
    (discovered env sender before payload).files.get (.directory id) =
        before.files.get (.directory id) ∧
      (discovered env sender before payload).activation.get (id, sender) =
        before.activation.get (id, sender) := by
  constructor
  · refine (get_discoverSkills (fun _ h => SkillFile.noConfusion h) _ _ _).trans ?_
    -- no attempt writes under a refused name
    have hnone : lastValue (fun a : InstallAttempt => a.writes (.directory id))
        ((reached env (payload.map (announced sender))).map (env.attempt sender)) = none := by
      rw [← Option.not_isSome_iff_eq_none]
      intro hsome
      obtain ⟨value, hvalue⟩ := Option.isSome_iff_exists.mp hsome
      obtain ⟨a, -, hwritten⟩ := mem_of_lastValue hvalue
      unfold InstallAttempt.writes at hwritten
      dsimp only at hwritten
      rw [if_neg fun h => Bool.eq_false_iff.mp hid h.1] at hwritten
      cases hwritten
    rw [hnone]
    rfl
  · rw [discovered_activation, handlePeerAnnouncement]
    refine get_announceSkills_of_notMem _ _ _ fun skill hskill hinstalls hmem => ?_
    obtain ⟨s, -, rfl⟩ := List.mem_map.mp hskill
    obtain rfl := List.mem_singleton.mp hmem
    rw [installs_announced hdisk] at hinstalls
    exact Bool.eq_false_iff.mp hid hinstalls

/-- Every listed skill gets into the registry. -/
theorem listed_announced {node : SkillNode} {fields : Fields} (clock : Nat → String)
    (hdoc : node.registry.capabilities = some (.object fields))
    (hlast : lastWith id payload = some s) :
    ∃ registry count,
      Registry.handleAnnounce node.registry node.localSkills clock sender payload =
        (registry, some count) ∧
      ∀ host, Listed { node with registry := registry, host := host } sender s := by
  obtain ⟨fields', count, hafter, hentries⟩ :=
    handleAnnounce_object node.localSkills clock sender node.registry payload hdoc
  refine ⟨_, count, hafter, fun host hlocal => ?_⟩
  obtain ⟨-, rfl⟩ := id_of_lastWith hlast
  have hentry := hentries (makeKey sender s.id)
  have hunder : announcedUnder node.localSkills sender (makeKey sender s.id) payload = some s := by
    rw [← hlast]
    unfold announcedUnder lastWith lastMatch
    congr 2
    funext other
    refine decide_eq_decide.mpr ⟨fun h => makeKey_right_injective h.2, fun h => ?_⟩
    rw [h]
    exact ⟨hlocal, rfl⟩
  rw [hunder] at hentry
  exact hentry

/-- With a disk that can be written and a document that is a map, a list is handled as promised
exactly if every skill with an accepted id comes in time.  A list of one skill is. -/
theorem onSkillAnnounce_unspoiled_iff (env : DiscoveryEnv) (clock : Nat → String) (node : SkillNode)
    (sender : String) {fields : Fields} (hdisk : ∀ file, env.fails file = false)
    (hdoc : node.registry.capabilities = some (.object fields)) :
    (∀ payload : List Registry.SkillManifest,
      Unspoiled env sender node (onSkillAnnounce env clock node sender payload) payload ↔
        ∀ id s, isSkillName id = true → lastWith id payload = some s →
          InTime env sender node.host payload id s) ∧
    ∀ s : Registry.SkillManifest,
      Unspoiled env sender node (onSkillAnnounce env clock node sender [s]) [s] := by
  have hiff : ∀ payload : List Registry.SkillManifest,
      Unspoiled env sender node (onSkillAnnounce env clock node sender payload) payload ↔
        ∀ id s, isSkillName id = true → lastWith id payload = some s →
          InTime env sender node.host payload id s := by
    intro payload
    obtain ⟨fields', count, hafter, -⟩ :=
      handleAnnounce_object node.localSkills clock sender node.registry payload hdoc
    -- the registry goes first, and the discovery does not read it
    have hhost : (onSkillAnnounce env clock node sender payload).host =
        discovered env sender node.host payload := by
      rw [onSkillAnnounce, hafter]
      rfl
    constructor
    · intro h id s hid hlast
      have hinstalled := (h.accepted id s hid hlast).1
      rw [hhost] at hinstalled
      exact (installed_iff hdisk hid hlast).mp hinstalled
    · intro h
      constructor
      · intro id s hid hlast
        refine ⟨?_, ?_⟩
        · rw [hhost]
          exact (installed_iff hdisk hid hlast).mpr (h id s hid hlast)
        · obtain ⟨registry, count', hregistry, hlisted⟩ := listed_announced clock hdoc hlast
          rw [onSkillAnnounce, hregistry]
          exact hlisted _
      · intro s _ hid
        rw [hhost]
        exact refused_discovered hdisk hid
  -- in a list of one skill nothing is refused before it
  refine ⟨hiff, fun s => (hiff [s]).mpr fun id s' hid hlast => ?_⟩
  obtain ⟨hmem, rfl⟩ := id_of_lastWith hlast
  obtain rfl := List.mem_singleton.mp hmem
  have hbefore : beforeRefused [s'] = [s'] := by
    rw [beforeRefused, List.takeWhile_cons, if_pos hid]
    rfl
  unfold InTime
  rw [hbefore, hlast]
  exact ⟨rfl, rfl⟩

/-- A skill as it is announced. -/
def announcedSkill (id : String) : Registry.SkillManifest where
  id := id
  version := "1.0.0"
  description := ""
  category := ""
  permissions := []

/-- A node without skills. -/
def emptyNode : SkillNode := ⟨⟨.empty, .empty⟩, .fresh, []⟩

theorem onSkillAnnounce_unspoiled_backup :
    Unspoiled plainEnv "spiffe://thinklocal/host/b/agent/x" emptyNode
      (onSkillAnnounce plainEnv (fun _ => "") emptyNode "spiffe://thinklocal/host/b/agent/x"
        [announcedSkill "backup"]) [announcedSkill "backup"] :=
  (onSkillAnnounce_unspoiled_iff plainEnv (fun _ => "") emptyNode
    "spiffe://thinklocal/host/b/agent/x" (fun _ => rfl) rfl).2 _

/-- An id with a slash before a good one. -/
theorem skill_after_refused_lost :
    ¬ Unspoiled plainEnv "spiffe://thinklocal/host/b/agent/x" emptyNode
      (onSkillAnnounce plainEnv (fun _ => "") emptyNode "spiffe://thinklocal/host/b/agent/x"
        [announcedSkill "a/b", announcedSkill "backup"])
      [announcedSkill "a/b", announcedSkill "backup"] := by
  intro h
  have hmanifest := (h.accepted "backup" (announcedSkill "backup") (by decide) rfl).1.directory
  revert hmanifest
  decide +kernel

end ThinkLocal.Skills
