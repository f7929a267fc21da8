import ThinkLocal.Foundation.Machine
import ThinkLocal.Skills.Activation

/-!
# Announced skills

`handlePeerAnnouncement` of `skill-discovery.ts` and the machine of a node's
activation store: the operator's calls, retention and announcements in any order,
each with a clock of its own.  Beside the store the machine keeps which pairs were
revoked, and which were suspended and not activated by the operator since.
-/

namespace ThinkLocal.Skills

open Foundation CapabilityActivationStore

/-! ## Announcements -/

structure AnnouncedSkill where
  name : String
  version : String
  description : String
  origin : String
  capabilities : List String
  prompt : Option String

/-- `sanitizeSkillName` does not throw. -/
def isSkillName (name : String) : Bool :=
  name ≠ "" ∧ name ≠ "." ∧ name ≠ ".." ∧
    name.toList.all fun c => c.isAlphanum || c = '.' || c = '_' || c = '-'

/-- What an announcement meets: the files that cannot be written, the hash of the manifest
of a peer's skill, and the readings of the clock in their order. -/
structure Surroundings where
  writeFails : AnnouncedSkill → Bool
  manifestHash : String → AnnouncedSkill → String
  clock : Nat → Int

/-- `installSkill` does not throw. -/
def Surroundings.installs (env : Surroundings) (skill : AnnouncedSkill) : Bool :=
  isSkillName skill.name && ! env.writeFails skill

/-- The body of the loop over the capabilities, with the number of clock readings. -/
def announceCapability (env : Surroundings) (peerAgentId : String) (skill : AnnouncedSkill)
    (s : CapabilityActivationStore × Nat) (capId : String) : CapabilityActivationStore × Nat :=
  let hash := env.manifestHash peerAgentId skill
  let discovered :=
    (s.1.discover (capId, peerAgentId) skill.version (some hash) (env.clock s.2)).1
  ((discovered.activate (capId, peerAgentId) (env.clock (s.2 + 1))).1, s.2 + 2)

/-- Is some capability of the skill seen for the first time? -/
def isNewDiscovery (s : CapabilityActivationStore) (peerAgentId : String)
    (skill : AnnouncedSkill) : Bool :=
  skill.capabilities.any fun capId => (s.get (capId, peerAgentId)).isNone

/-- The loop over the skills; `none` for an exception of `installSkill`. -/
def announceSkills (env : Surroundings) (peerAgentId : String) :
    CapabilityActivationStore × Nat → Nat → List AnnouncedSkill →
      CapabilityActivationStore × Option Nat
  | s, installed, [] => (s.1, some installed)
  | s, installed, skill :: rest =>
      if env.installs skill then
        announceSkills env peerAgentId
          (skill.capabilities.foldl (announceCapability env peerAgentId skill) s)
          (if isNewDiscovery s.1 peerAgentId skill then installed + 1 else installed) rest
      else (s.1, none)

/-- The store after the announcement and the number of newly installed skills. -/
def handlePeerAnnouncement (env : Surroundings) (s : CapabilityActivationStore)
    (peerAgentId : String) (skills : List AnnouncedSkill) : CapabilityActivationStore × Option Nat :=
  announceSkills env peerAgentId (s, 0) 0 skills

/-- The capabilities that an announcement gets to: an exception ends it. -/
def announcedCapabilities (env : Surroundings) (skills : List AnnouncedSkill) : List String :=
  (skills.takeWhile env.installs).flatMap fun skill => skill.capabilities

/-! ## What an announcement does -/

/-- The state of a pair after it was announced. -/
def announcedState : Option CapabilityState → Option CapabilityState
  | some .revoked => some .revoked
  | _ => some .active

variable {env : Surroundings} {peerAgentId : String} {key : CapabilityKey}

theorem stateOf_announceCapability (skill : AnnouncedSkill) (s : CapabilityActivationStore × Nat)
    (capId : String) :
    (announceCapability env peerAgentId skill s capId).1.stateOf key =
      if key = (capId, peerAgentId) then announcedState (s.1.stateOf key)
      else s.1.stateOf key := by
  unfold announceCapability
  dsimp only
  rw [stateOf_activate, stateOf_discover, stateOf_discover, if_pos rfl]
  by_cases hkey : key = (capId, peerAgentId)
  · subst hkey
    rcases s.1.stateOf (capId, peerAgentId) with - | - | - | - | - <;> simp [announcedState]
  · simp [hkey]

theorem announcedState_idem (state : Option CapabilityState) :
    announcedState (announcedState state) = announcedState state := by
  rcases state with - | - | - | - | - <;> rfl

theorem stateOf_announceCapabilities (skill : AnnouncedSkill) (capabilities : List String)
    (s : CapabilityActivationStore × Nat) :
    (capabilities.foldl (announceCapability env peerAgentId skill) s).1.stateOf key =
      if key.2 = peerAgentId ∧ key.1 ∈ capabilities then announcedState (s.1.stateOf key)
      else s.1.stateOf key := by
  induction capabilities generalizing s with
  | nil => simp
  | cons capId rest ih =>
      rw [List.foldl_cons, ih, stateOf_announceCapability]
      by_cases hkey : key = (capId, peerAgentId)
      · subst hkey
        simp [announcedState_idem]
      · have hne : ¬ (key.2 = peerAgentId ∧ key.1 = capId) := fun h => hkey (Prod.ext h.2 h.1)
        rw [if_neg hkey]
        grind

theorem stateOf_announceSkills (skills : List AnnouncedSkill)
    (s : CapabilityActivationStore × Nat) (installed : Nat) :
    (announceSkills env peerAgentId s installed skills).1.stateOf key =
      if key.2 = peerAgentId ∧ key.1 ∈ announcedCapabilities env skills then
        announcedState (s.1.stateOf key)
      else s.1.stateOf key := by
  induction skills generalizing s installed with
  | nil => simp [announceSkills, announcedCapabilities]
  | cons skill rest ih =>
      rw [announceSkills]
      by_cases hinstalls : env.installs skill = true
      · have hcapabilities : announcedCapabilities env (skill :: rest) =
            skill.capabilities ++ announcedCapabilities env rest := by
          simp [announcedCapabilities, hinstalls]
        rw [if_pos hinstalls, ih, stateOf_announceCapabilities, hcapabilities]
        -- Announced by this skill, by a later one, or by both.
        by_cases hpeer : key.2 = peerAgentId
        · by_cases hhere : key.1 ∈ skill.capabilities
          · simp [hpeer, hhere, announcedState_idem]
          · simp [hpeer, hhere]
        · simp [hpeer]
      · simp [announcedCapabilities, hinstalls]

/-- An announcement activates what it lists, unless it is revoked, and changes nothing else. -/
theorem stateOf_announcement (s : CapabilityActivationStore) (skills : List AnnouncedSkill) :
    (handlePeerAnnouncement env s peerAgentId skills).1.stateOf key =
      if key.2 = peerAgentId ∧ key.1 ∈ announcedCapabilities env skills then
        announcedState (s.stateOf key)
      else s.stateOf key :=
  stateOf_announceSkills skills (s, 0) 0

/-! ## The machine -/

structure ActivationState where
  store : CapabilityActivationStore
  /-- The pairs for which `revoke` returned `true`. -/
  revoked : List CapabilityKey
  /-- The pairs for which `suspend` returned `true`, without an `activate` since. -/
  held : List CapabilityKey

inductive ActivationAction
  | discover (key : CapabilityKey) (version : String) (manifestHash : Option String) (now : Int)
  /-- The operator activates. -/
  | activate (key : CapabilityKey) (now : Int)
  | suspend (key : CapabilityKey) (reason : Option String) (now : Int)
  | revoke (key : CapabilityKey) (reason : Option String) (now : Int)
  | pruneRevokedOlderThan (maxAgeMs : Option Int) (now : Int)
  | announcement (env : Surroundings) (peerAgentId : String) (skills : List AnnouncedSkill)

def activationStep (s : ActivationState) : ActivationAction → ActivationState
  | .discover key version manifestHash now =>
      { s with store := (s.store.discover key version manifestHash now).1 }
  | .activate key now =>
      { s with store := (s.store.activate key now).1, held := s.held.filter (· ≠ key) }
  | .suspend key reason now =>
      let result := s.store.suspend key reason now
      { s with store := result.1, held := if result.2 then key :: s.held else s.held }
  | .revoke key reason now =>
      let result := s.store.revoke key reason now
      { s with store := result.1, revoked := if result.2 then key :: s.revoked else s.revoked }
  | .pruneRevokedOlderThan maxAgeMs now =>
      { s with store := (s.store.pruneRevokedOlderThan maxAgeMs now).1 }
  | .announcement env peerAgentId skills =>
      { s with store := (handlePeerAnnouncement env s.store peerAgentId skills).1 }

def activation : Machine ActivationState ActivationAction where
  init := ⟨.empty, [], []⟩
  step s a := some (activationStep s a)

/-! ## What a step does to a pair -/

/-- How an action changes the state of a pair. -/
inductive Change (key : CapabilityKey) :
    ActivationAction → Option CapabilityState → Option CapabilityState → Prop
  | same (a state) : Change key a state state
  | discovered (version manifestHash now) :
      Change key (.discover key version manifestHash now) none (some .discovered)
  | activated (now state) (h : state ≠ .revoked) :
      Change key (.activate key now) (some state) (some .active)
  | suspended (reason now) :
      Change key (.suspend key reason now) (some .active) (some .suspended)
  | revoked (reason now state) : Change key (.revoke key reason now) (some state) (some .revoked)
  | pruned (maxAgeMs now) :
      Change key (.pruneRevokedOlderThan maxAgeMs now) (some .revoked) none
  | announced (env peerAgentId skills state) (hpeer : key.2 = peerAgentId)
      (hlisted : key.1 ∈ announcedCapabilities env skills) (h : state ≠ some .revoked) :
      Change key (.announcement env peerAgentId skills) state (some .active)

theorem change_step (s : ActivationState) (a : ActivationAction) (key : CapabilityKey) :
    Change key a (s.store.stateOf key) ((activationStep s a).store.stateOf key) := by
  cases a with
  | discover key' version manifestHash now =>
      dsimp only [activationStep]
      rw [stateOf_discover]
      split
      case isTrue hkey =>
        subst hkey
        cases s.store.stateOf key with
        | none => exact .discovered _ _ _
        | some state => exact .same _ _
      case isFalse => exact .same _ _
  | activate key' now =>
      dsimp only [activationStep]
      rw [stateOf_activate]
      split
      case isTrue hcond =>
        -- the update matched a row, so its state was one from which activation is allowed
        obtain ⟨rfl, hstate⟩ := hcond
        obtain ⟨state, hsome, hactivatable⟩ := (Option.any_eq_true _ _).mp hstate
        rw [hsome]
        apply Change.activated
        rintro rfl
        simp at hactivatable
      case isFalse => exact .same _ _
  | suspend key' reason now =>
      dsimp only [activationStep]
      rw [stateOf_suspend]
      split
      case isTrue hcond =>
        obtain ⟨rfl, hstate⟩ := hcond
        obtain ⟨state, hsome, hactive⟩ := (Option.any_eq_true _ _).mp hstate
        obtain rfl := of_decide_eq_true hactive
        rw [hsome]
        exact .suspended _ _
      case isFalse => exact .same _ _
  | revoke key' reason now =>
      dsimp only [activationStep]
      rw [stateOf_revoke]
      split
      case isTrue hcond =>
        obtain ⟨rfl, hstate⟩ := hcond
        obtain ⟨state, hsome, -⟩ := (Option.any_eq_true _ _).mp hstate
        rw [hsome]
        exact .revoked _ _ _
      case isFalse => exact .same _ _
  | pruneRevokedOlderThan maxAgeMs now =>
      dsimp only [activationStep]
      -- only revoked rows can be swept
      rcases stateOf_prune maxAgeMs now with hsame | ⟨hrevoked, hnone⟩
      · rw [hsame]
        exact .same _ _
      · rw [hrevoked, hnone]
        exact .pruned _ _
  | announcement env peerAgentId skills =>
      dsimp only [activationStep]
      rw [stateOf_announcement]
      split
      case isTrue hcond =>
        -- an announcement activates all but the revoked
        by_cases hrevoked : s.store.stateOf key = some .revoked
        · rw [hrevoked]
          exact .same _ _
        · have hactive : announcedState (s.store.stateOf key) = some .active := by
            rcases hstate : s.store.stateOf key with - | - | - | - | - <;>
              first | rfl | exact absurd hstate hrevoked
          rw [hactive]
          exact .announced _ _ _ _ hcond.1 hcond.2 hrevoked
      case isFalse => exact .same _ _

/-- A pair that is newly recorded as revoked is revoked. -/
theorem mem_revoked_step {s : ActivationState} {a : ActivationAction} {key : CapabilityKey}
    (h : key ∈ (activationStep s a).revoked) :
    key ∈ s.revoked ∨ (activationStep s a).store.stateOf key = some .revoked := by
  cases a with
  | revoke key' reason now =>
      dsimp only [activationStep] at h ⊢
      split at h
      case isTrue hresult =>
        rcases List.mem_cons.mp h with rfl | hmem
        · right
          rw [revoke, update_snd] at hresult
          rw [stateOf_revoke, if_pos ⟨rfl, hresult⟩]
        · exact .inl hmem
      case isFalse => exact .inl h
  | _ => exact .inl h

/-- A pair that is newly recorded as suspended is suspended. -/
theorem mem_held_step {s : ActivationState} {a : ActivationAction} {key : CapabilityKey}
    (h : key ∈ (activationStep s a).held) :
    key ∈ s.held ∧ (∀ now, a ≠ .activate key now) ∨
      (activationStep s a).store.stateOf key = some .suspended := by
  cases a with
  | suspend key' reason now =>
      dsimp only [activationStep] at h ⊢
      split at h
      case isTrue hresult =>
        rcases List.mem_cons.mp h with rfl | hmem
        · right
          rw [suspend, update_snd] at hresult
          rw [stateOf_suspend, if_pos ⟨rfl, hresult⟩]
        · exact .inl ⟨hmem, fun _ h => by cases h⟩
      case isFalse => exact .inl ⟨h, fun _ h => by cases h⟩
  | activate key' now =>
      obtain ⟨hmem, hne⟩ := List.mem_filter.mp h
      refine .inl ⟨hmem, fun now' heq => ?_⟩
      cases heq
      simp at hne
  | _ => exact .inl ⟨h, fun _ h => by cases h⟩

end ThinkLocal.Skills
