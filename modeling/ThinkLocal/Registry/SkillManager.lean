import ThinkLocal.Foundation.LastMatch
import ThinkLocal.Registry.ImportOrder

/-!
# Skill announcements in the registry

`handleAnnounce` of `skills.ts` registers the announced skills under the identity of their sender.  The
message carries no date, so each entry has the receiver's clock.
-/

namespace ThinkLocal.Registry

open Foundation CapabilityRegistry

/-- What `handleAnnounce` reads of an announced manifest. -/
structure SkillManifest where
  id : String
  version : String
  description : String
  category : String
  permissions : List String

/-- The capability for an announced skill. -/
def SkillManifest.remote (manifest : SkillManifest) (senderAgentId now : String) : Capability where
  skill_id := manifest.id
  version := manifest.version
  description := manifest.description
  agent_id := senderAgentId
  health := .healthy
  trust_level := 2
  updated_at := now
  category := manifest.category
  permissions := manifest.permissions

/-- The loop of `handleAnnounce`, with the number of readings of the clock. -/
def announceSkills (localSkills : List String) (clock : Nat → String) (senderAgentId : String) :
    CapabilityRegistry → Nat → Nat → List SkillManifest → CapabilityRegistry × Option Nat
  | r, _, imported, [] => (r, some imported)
  | r, readings, imported, manifest :: rest =>
      if manifest.id ∈ localSkills then
        announceSkills localSkills clock senderAgentId r readings imported rest
      else
        match r.register (manifest.remote senderAgentId (clock readings)) (clock (readings + 1)) with
        | (r, some ()) =>
            announceSkills localSkills clock senderAgentId r (readings + 2) (imported + 1) rest
        | (r, none) => (r, none)

/-- `handleAnnounce` and the number of registered skills. -/
def handleAnnounce (r : CapabilityRegistry) (localSkills : List String) (clock : Nat → String)
    (senderAgentId : String) (skills : List SkillManifest) : CapabilityRegistry × Option Nat :=
  announceSkills localSkills clock senderAgentId r 0 0 skills

variable {localSkills : List String} {clock : Nat → String} {senderAgentId : String}

/-- A registration puts an entry into the document. -/
theorem register_object (r : CapabilityRegistry) {fields : Fields}
    (hdoc : r.capabilities = some (.object fields)) (cap : Capability) (now : String) :
    r.register cap now = ({ r with
      capabilities := some (.object (insertField fields cap.key (registered cap now))) },
      some ()) := by
  rw [register, change, hdoc]
  rfl

/-- The announced skill that is registered under a key: the last one. -/
def announcedUnder (localSkills : List String) (senderAgentId key : String)
    (skills : List SkillManifest) : Option SkillManifest :=
  lastMatch (fun manifest => decide (manifest.id ∉ localSkills ∧
    makeKey senderAgentId manifest.id = key)) skills

theorem announcedUnder_cons (manifest : SkillManifest) (skills : List SkillManifest) (key : String) :
    announcedUnder localSkills senderAgentId key (manifest :: skills) =
      (announcedUnder localSkills senderAgentId key skills).or
        (if manifest.id ∉ localSkills ∧ makeKey senderAgentId manifest.id = key then some manifest
        else none) := by
  unfold announcedUnder lastMatch
  rw [List.filter_cons]
  by_cases hmatch : manifest.id ∉ localSkills ∧ makeKey senderAgentId manifest.id = key
  · rw [if_pos (decide_eq_true hmatch), if_pos hmatch, List.getLast?_cons]
    cases (List.filter _ skills).getLast? <;> rfl
  · rw [if_neg (by simpa using hmatch), if_neg hmatch, Option.or_none]

/-- The entry under the key before and after an announcement. -/
def AnnouncedEntry (senderAgentId : String) (before after : Option Json) :
    Option SkillManifest → Prop
  | none => after = before
  | some manifest =>
      ∃ reading now, after = some (registered (manifest.remote senderAgentId reading) now)

theorem announceSkills_object (skills : List SkillManifest) (r : CapabilityRegistry)
    (readings imported : Nat) {fields : Fields} (hdoc : r.capabilities = some (.object fields)) :
    ∃ fields' count,
      announceSkills localSkills clock senderAgentId r readings imported skills =
        ({ r with capabilities := some (.object fields') }, some count) ∧
      ∀ key, AnnouncedEntry senderAgentId (lookup fields key) (lookup fields' key)
        (announcedUnder localSkills senderAgentId key skills) := by
  induction skills generalizing r readings imported fields with
  | nil =>
      refine ⟨fields, imported, ?_, fun _ => rfl⟩
      rw [announceSkills, ← hdoc]
  | cons manifest skills ih =>
      rw [announceSkills]
      split_ifs with hlocal
      · obtain ⟨fields', count, hrest, hentries⟩ := ih r readings imported hdoc
        refine ⟨fields', count, hrest, fun key => ?_⟩
        rw [announcedUnder_cons, if_neg fun h => h.1 hlocal, Option.or_none]
        exact hentries key
      · rw [register_object r hdoc]
        obtain ⟨fields', count, hrest, hentries⟩ := ih { r with
          capabilities := some (.object (insertField fields
            (manifest.remote senderAgentId (clock readings)).key
            (registered (manifest.remote senderAgentId (clock readings)) (clock (readings + 1))))) }
          (readings + 2) (imported + 1) rfl
        refine ⟨fields', count, hrest, fun key => ?_⟩
        have hentry := hentries key
        rw [announcedUnder_cons]
        -- a later skill under the key replaces this one
        cases hlater : announcedUnder localSkills senderAgentId key skills with
        | some later =>
            rw [hlater] at hentry
            exact hentry
        | none =>
            rw [hlater] at hentry
            have hafter := hentry.trans (lookup_insertField _ _ _ _)
            rw [Option.none_or]
            by_cases hkey : makeKey senderAgentId manifest.id = key
            · rw [if_pos ⟨hlocal, hkey⟩]
              exact ⟨_, _, hafter.trans (if_pos hkey.symm)⟩
            · rw [if_neg fun h => hkey h.2]
              exact hafter.trans (if_neg fun h => hkey h.symm)

/-- An announcement registers the last skill under each key. -/
theorem handleAnnounce_object (localSkills : List String) (clock : Nat → String)
    (senderAgentId : String) (r : CapabilityRegistry) (skills : List SkillManifest)
    {fields : Fields} (hdoc : r.capabilities = some (.object fields)) :
    ∃ fields' count,
      handleAnnounce r localSkills clock senderAgentId skills =
        ({ r with capabilities := some (.object fields') }, some count) ∧
      ∀ key, AnnouncedEntry senderAgentId (lookup fields key) (lookup fields' key)
        (announcedUnder localSkills senderAgentId key skills) :=
  announceSkills_object skills r 0 0 hdoc

end ThinkLocal.Registry
