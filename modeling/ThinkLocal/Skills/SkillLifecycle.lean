import ThinkLocal.Foundation.InsertionMap
import ThinkLocal.Foundation.Machine
import ThinkLocal.Js.Doubles

/-!
# The life cycle of a skill

`SkillLifecycleManager` keeps an entry for each registered skill.  Its garbage collection marks the
active entries past their expiry as expired and removes what is no longer active and either past its
expiry or unused for too long.

* `get_gc` says what one collection does to an entry; `collects_gc` follows for every collection.
* `lifecycle_law`: in the runs in which no expired skill is deprecated or disabled, a skill that was
  marked as expired is not active before it is registered again.

A text that `toISOString` writes stands for its time, which `Date` reads back.
-/

namespace ThinkLocal.Skills.Lifecycle

open Foundation ThinkLocal.Js

/-! ## The manager -/

inductive SkillStatus
  | active
  | deprecated
  | expired
  | disabled
deriving DecidableEq

structure SkillLifecycleEntry where
  skillId : String
  status : SkillStatus
  installedAt : Int
  lastUsedAt : Option Int
  usageCount : Nat
  deprecatedAt : Option Int
  deprecationReason : Option String
  expiresAt : Option Int

abbrev SkillTable := InsertionMap String SkillLifecycleEntry

/-- `n * 86400_000`. -/
def daysMs (days : Number) : Number := days.mul (.ofInt 86400000)

/-- The time of `new Date(now + days * 86400_000)`, `none` where it is none and the text of it
throws. -/
def expiryTime (now : Int) (days : Number) : Option Int :=
  match (Number.ofInt now).add (daysMs days) with
  | .finite t =>
      if |t| ≤ 8640000000000000 then some (if t < 0 then ⌈t⌉ else ⌊t⌋) else none
  | _ => none

/-- The second clock reading is the one of `installedAt`; `none` is the throw. -/
def register (defaultExpiryDays : Number) (now installed : Int) (skillId : String)
    (expiryDays : Option Number) (skills : SkillTable) : Option SkillTable :=
  (expiryTime now (expiryDays.getD defaultExpiryDays)).map fun expiresAt =>
    skills.set skillId
      { skillId := skillId
        status := .active
        installedAt := installed
        lastUsedAt := none
        usageCount := 0
        deprecatedAt := none
        deprecationReason := none
        expiresAt := some expiresAt }

/-- Changes the entry of a skill that has one. -/
def change (skillId : String) (f : SkillLifecycleEntry → SkillLifecycleEntry)
    (skills : SkillTable) : SkillTable :=
  match skills.get skillId with
  | none => skills
  | some entry => skills.set skillId (f entry)

def recordUsage (now : Int) (skillId : String) (skills : SkillTable) : SkillTable :=
  change skillId
    (fun entry => { entry with lastUsedAt := some now, usageCount := entry.usageCount + 1 }) skills

/-- `deprecate`. -/
def deprecateSkill (now : Int) (skillId reason : String) (skills : SkillTable) : SkillTable × Bool :=
  (change skillId (fun entry =>
    { entry with
      status := .deprecated
      deprecatedAt := some now
      deprecationReason := some reason }) skills, skills.has skillId)

def disable (skillId : String) (skills : SkillTable) : SkillTable × Bool :=
  (change skillId (fun entry => { entry with status := .disabled }) skills, skills.has skillId)

def enable (skillId : String) (skills : SkillTable) : SkillTable × Bool :=
  match skills.get skillId with
  | none => (skills, false)
  | some entry =>
      if entry.status = .expired then (skills, false)
      else (skills.set skillId { entry with status := .active }, true)

/-! ## Garbage collection -/

def isPast (now : Int) (entry : SkillLifecycleEntry) : Bool := entry.expiresAt.any (· < now)

/-- `now - lastActivityTime > unusedDays * 86400_000`. -/
def isUnused (now : Int) (unusedDays : Number) (entry : SkillLifecycleEntry) : Bool :=
  (daysMs unusedDays).lt (.ofInt (now - entry.lastUsedAt.getD entry.installedAt))

inductive Verdict
  | keep
  | mark
  | remove
deriving DecidableEq

def verdict (now : Int) (unusedDays : Number) (entry : SkillLifecycleEntry) : Verdict :=
  if entry.status = .active then
    if isPast now entry then .mark else .keep
  else if isPast now entry then .remove
  else if isUnused now unusedDays entry then .remove
  else .keep

/-- One turn of the loop over the entries, with the number of the removed ones. -/
def gcEntry (now : Int) (unusedDays : Number) (state : SkillTable × Nat)
    (p : String × SkillLifecycleEntry) : SkillTable × Nat :=
  match verdict now unusedDays p.2 with
  | .keep => state
  | .mark => (state.1.set p.1 { p.2 with status := .expired }, state.2)
  | .remove => (state.1.delete p.1, state.2 + 1)

def gc (now : Int) (unusedDays : Option Number) (skills : SkillTable) : SkillTable × Nat :=
  skills.entries.foldl (gcEntry now (unusedDays.getD (.ofInt 30))) (skills, 0)

/-! ## Runs -/

inductive Call
  | register (skillId : String) (expiryDays : Option Number) (installed : Int)
  | recordUsage (skillId : String)
  | deprecateSkill (skillId reason : String)
  | disable (skillId : String)
  | enable (skillId : String)
  | gc (unusedDays : Option Number)

structure Manager where
  skills : SkillTable
  clock : Int
  /-- The skills that a collection has marked as expired and that were not registered since. -/
  marked : List String

/-- What a collection marks. -/
def marks (now : Int) (unusedDays : Option Number) (skills : SkillTable) : List String :=
  (skills.entries.filter fun p => verdict now (unusedDays.getD (.ofInt 30)) p.2 = .mark).map
    Prod.fst

def callStep (defaultExpiryDays : Number) (now : Int) (s : Manager) : Call → Manager
  | .register skillId expiryDays installed =>
      match register defaultExpiryDays now installed skillId expiryDays s.skills with
      | none => { s with clock := now }
      | some skills =>
          { skills := skills, clock := installed, marked := s.marked.filter (· ≠ skillId) }
  | .recordUsage skillId => { s with skills := recordUsage now skillId s.skills, clock := now }
  | .deprecateSkill skillId reason =>
      { s with skills := (deprecateSkill now skillId reason s.skills).1, clock := now }
  | .disable skillId => { s with skills := (disable skillId s.skills).1, clock := now }
  | .enable skillId => { s with skills := (enable skillId s.skills).1, clock := now }
  | .gc unusedDays =>
      { skills := (gc now unusedDays s.skills).1
        clock := now
        marked := s.marked ++ marks now unusedDays s.skills }

/-- The clock does not run back, neither between the calls nor within one. -/
def InTime (s : Manager) (now : Int) : Call → Prop
  | .register _ _ installed => s.clock ≤ now ∧ now ≤ installed
  | _ => s.clock ≤ now

instance (s : Manager) (now : Int) : ∀ call, Decidable (InTime s now call)
  | .register _ _ installed => inferInstanceAs (Decidable (s.clock ≤ now ∧ now ≤ installed))
  | .recordUsage _ | .deprecateSkill _ _ | .disable _ | .enable _ | .gc _ =>
      inferInstanceAs (Decidable (s.clock ≤ now))

def machine (defaultExpiryDays : Number) : Machine Manager (Call × Int) where
  init := ⟨.empty, 0, []⟩
  step s a := if InTime s a.2 a.1 then some (callStep defaultExpiryDays a.2 s a.1) else none

/-! ## What one collection does -/

section Collection

variable {now : Int} {skills : SkillTable} {days : Number} {skillId : String}

/-- What is left of an entry. -/
def outcome (now : Int) (days : Number) (entry : SkillLifecycleEntry) :
    Option SkillLifecycleEntry :=
  match verdict now days entry with
  | .keep => some entry
  | .mark => some { entry with status := .expired }
  | .remove => none

theorem get_gcEntry {n : Nat} {p : String × SkillLifecycleEntry}
    (hp : skills.get p.1 = some p.2) (id : String) :
    (gcEntry now days (skills, n) p).1.get id =
      if id = p.1 then outcome now days p.2 else skills.get id := by
  unfold gcEntry outcome
  cases verdict now days p.2 with
  | keep =>
      split_ifs with hid
      · rw [hid, hp]
      · rfl
  | mark => exact InsertionMap.get_set _ _ _ _
  | remove => exact InsertionMap.get_delete _ _ _

/-- The loop treats each entry that is still to come as it was at the start. -/
theorem get_foldl_gcEntry {l : List (String × SkillLifecycleEntry)} {n : Nat}
    (hnodup : (l.map Prod.fst).Nodup) (hl : ∀ p ∈ l, skills.get p.1 = some p.2) (id : String) :
    (l.foldl (gcEntry now days) (skills, n)).1.get id =
      if id ∈ l.map Prod.fst then (skills.get id).bind (outcome now days)
      else skills.get id := by
  induction l generalizing skills n with
  | nil => rfl
  | cons p rest ih =>
      rw [List.map_cons, List.nodup_cons] at hnodup
      have hp : skills.get p.1 = some p.2 := hl p List.mem_cons_self
      have hget : ∀ id, (gcEntry now days (skills, n) p).1.get id =
          if id = p.1 then outcome now days p.2 else skills.get id := get_gcEntry hp
      rw [List.foldl_cons, ← Prod.mk.eta (p := gcEntry now days (skills, n) p),
        ih hnodup.2, List.map_cons, hget]
      · by_cases hid : id = p.1
        · subst hid
          rw [if_neg hnodup.1, if_pos rfl, if_pos List.mem_cons_self, hp]
          rfl
        · simp only [hid, if_false, List.mem_cons, false_or]
      · intro q hq
        have hne : q.1 ≠ p.1 := fun heq => hnodup.1 (heq ▸ List.mem_map_of_mem hq)
        rw [hget, if_neg hne]
        exact hl q (List.mem_cons_of_mem p hq)

theorem get_gc (unusedDays : Option Number) (id : String) :
    (gc now unusedDays skills).1.get id =
      (skills.get id).bind (outcome now (unusedDays.getD (.ofInt 30))) := by
  unfold gc
  rw [get_foldl_gcEntry skills.nodup fun p hp => InsertionMap.get_eq_some_iff.mpr hp]
  split_ifs with hid
  · rfl
  · rw [InsertionMap.get_eq_none_iff.mpr hid]
    rfl

theorem count_foldl_gcEntry (l : List (String × SkillLifecycleEntry)) (n : Nat) :
    (l.foldl (gcEntry now days) (skills, n)).2 =
      n + (l.filter fun p => outcome now days p.2 = none).length := by
  induction l generalizing skills n with
  | nil => rfl
  | cons p rest ih =>
      rw [List.foldl_cons, ← Prod.mk.eta (p := gcEntry now days (skills, n) p), ih,
        List.filter_cons]
      unfold gcEntry outcome
      cases verdict now days p.2 with
      | keep => rfl
      | mark => rfl
      | remove => simp only [decide_true, if_true, List.length_cons]; omega

theorem isPast_iff {entry : SkillLifecycleEntry} :
    isPast now entry = true ↔ ∃ t ∈ entry.expiresAt, t < now := by
  unfold isPast
  cases entry.expiresAt <;> simp

theorem outcome_eq_none {entry : SkillLifecycleEntry} (h : outcome now days entry = none) :
    entry.status ≠ .active ∧ (isPast now entry = true ∨ isUnused now days entry = true) := by
  unfold outcome verdict at h
  by_cases hactive : entry.status = .active
  · rw [if_pos hactive] at h
    split_ifs at h
  · refine ⟨hactive, ?_⟩
    rw [if_neg hactive] at h
    by_cases hpast : isPast now entry = true
    · exact .inl hpast
    · rw [if_neg hpast] at h
      by_cases hunused : isUnused now days entry = true
      · exact .inr hunused
      · rw [if_neg hunused] at h
        cases h

theorem status_of_outcome {entry entry' : SkillLifecycleEntry}
    (h : outcome now days entry = some entry') :
    entry'.status = entry.status ∨ (entry.status = .active ∧ entry'.status = .expired) := by
  unfold outcome verdict at h
  split_ifs at h with hactive hpast
  · obtain rfl := Option.some.inj h
    exact .inr ⟨hactive, rfl⟩
  · obtain rfl := Option.some.inj h
    exact .inl rfl
  · obtain rfl := Option.some.inj h
    exact .inl rfl

/-- What a collection may remove, and what it returns. -/
structure Collects (now : Int) (days : Number) (before after : SkillTable) (removed : Nat) :
    Prop where
  active : ∀ id entry, before.get id = some entry → entry.status = .active →
    after.get id ≠ none
  reason : ∀ id entry, before.get id = some entry → after.get id = none →
    (entry.status = .expired ∨ entry.status = .deprecated ∨ entry.status = .disabled) ∧
      ((∃ t ∈ entry.expiresAt, t < now) ∨
        (daysMs days).lt (.ofInt (now - entry.lastUsedAt.getD entry.installedAt)) = true)
  count : removed = (before.entries.filter fun p => (after.get p.1).isNone).length

theorem collects_gc (unusedDays : Option Number) :
    Collects now (unusedDays.getD (.ofInt 30)) skills (gc now unusedDays skills).1
      (gc now unusedDays skills).2 where
  active id entry hentry hactive hnone := by
    rw [get_gc, hentry] at hnone
    exact (outcome_eq_none hnone).1 hactive
  reason id entry hentry hnone := by
    rw [get_gc, hentry] at hnone
    obtain ⟨hactive, hwhy⟩ := outcome_eq_none hnone
    refine ⟨?_, hwhy.imp_left isPast_iff.mp⟩
    -- an active entry is never removed
    cases hstatus : entry.status with
    | active => exact absurd hstatus hactive
    | expired => exact .inl rfl
    | deprecated => exact .inr (.inl rfl)
    | disabled => exact .inr (.inr rfl)
  count := by
    unfold gc
    rw [count_foldl_gcEntry, Nat.zero_add]
    congr 1
    refine List.filter_congr fun p hp => ?_
    have hget : (gc now unusedDays skills).1.get p.1 =
        outcome now (unusedDays.getD (.ofInt 30)) p.2 := by
      rw [get_gc, InsertionMap.get_eq_some_iff.mpr hp, Option.bind_some]
    unfold gc at hget
    rw [hget]
    cases outcome now (unusedDays.getD (.ofInt 30)) p.2 <;> rfl

end Collection

/-! ## The expired skills of a run -/

section Runs

variable {defaultExpiryDays : Number} {s s' : Manager} {now : Int}

/-- No skill that is expired is deprecated or disabled. -/
def KeepsExpired (s : Manager) (a : Call × Int) : Prop :=
  match a.1 with
  | .deprecateSkill skillId _ | .disable skillId =>
      ∀ entry ∈ s.skills.get skillId, entry.status ≠ .expired
  | _ => True

instance : ∀ s a, Decidable (KeepsExpired s a)
  | _, (.register _ _ _, _) | _, (.recordUsage _, _) | _, (.enable _, _) | _, (.gc _, _) =>
      .isTrue trivial
  | s, (.deprecateSkill skillId _, _) | s, (.disable skillId, _) =>
      inferInstanceAs (Decidable (∀ entry ∈ s.skills.get skillId, entry.status ≠ .expired))

/-- What was marked is still expired, if it is there at all. -/
def MarkedExpired (s : Manager) : Prop :=
  ∀ id ∈ s.marked, ∀ entry, s.skills.get id = some entry → entry.status = .expired

theorem get_change (skillId : String) (f : SkillLifecycleEntry → SkillLifecycleEntry)
    (skills : SkillTable) (id : String) :
    (change skillId f skills).get id =
      if id = skillId then (skills.get skillId).map f else skills.get id := by
  unfold change
  cases hget : skills.get skillId with
  | none =>
      split_ifs with hid
      · rw [hid, hget]
        rfl
      · rfl
  | some entry => exact InsertionMap.get_set _ _ _ _

/-- A change of a skill that is not expired touches no marked one. -/
theorem markedExpired_change {skillId : String} {f : SkillLifecycleEntry → SkillLifecycleEntry}
    (h : MarkedExpired s)
    (hf : ∀ entry, s.skills.get skillId = some entry →
      entry.status = .expired → (f entry).status = .expired) :
    ∀ id ∈ s.marked, ∀ entry, (change skillId f s.skills).get id = some entry →
      entry.status = .expired := by
  intro id hid entry hentry
  rw [get_change] at hentry
  split_ifs at hentry with heq
  · obtain ⟨old, hold, rfl⟩ := Option.map_eq_some_iff.mp hentry
    exact hf old hold (h id hid old (heq ▸ hold))
  · exact h id hid entry hentry

theorem markedExpired_gc (h : MarkedExpired s) (unusedDays : Option Number) :
    MarkedExpired (callStep defaultExpiryDays now s (.gc unusedDays)) := by
  intro id hid entry hentry
  change (gc now unusedDays s.skills).1.get id = some entry at hentry
  rw [get_gc] at hentry
  obtain ⟨old, hold, houtcome⟩ := Option.bind_eq_some_iff.mp hentry
  rcases List.mem_append.mp hid with hmarked | hnew
  · have hexpired := h id hmarked old hold
    rcases status_of_outcome houtcome with hsame | ⟨hactive, _⟩
    · exact hsame.trans hexpired
    · rw [hexpired] at hactive
      cases hactive
  · obtain ⟨p, hp, rfl⟩ := List.mem_map.mp hnew
    obtain ⟨hmem, hverdict⟩ := List.mem_filter.mp hp
    rw [InsertionMap.get_eq_some_iff.mpr hmem] at hold
    obtain rfl := Option.some.inj hold
    rw [outcome, of_decide_eq_true hverdict] at houtcome
    obtain rfl := Option.some.inj houtcome
    rfl

theorem MarkedExpired.step (h : MarkedExpired s) (call : Call) (hkeeps : KeepsExpired s (call, now)) :
    MarkedExpired (callStep defaultExpiryDays now s call) := by
  cases call with
  | register skillId expiryDays installed =>
      cases hregister : register defaultExpiryDays now installed skillId expiryDays s.skills with
      | none =>
          simp only [callStep, hregister]
          exact h
      | some skills =>
          simp only [callStep, hregister]
          obtain ⟨expiresAt, _, rfl⟩ := Option.map_eq_some_iff.mp hregister
          intro id hid entry hentry
          obtain ⟨hmarked, hne⟩ := List.mem_filter.mp hid
          refine h id hmarked entry ?_
          rwa [InsertionMap.get_set_of_ne _ _ (of_decide_eq_true hne)] at hentry
  | recordUsage skillId => exact markedExpired_change h fun _ _ hexpired => hexpired
  | deprecateSkill skillId reason =>
      exact markedExpired_change h fun entry hentry hexpired =>
        absurd hexpired (hkeeps entry hentry)
  | disable skillId =>
      exact markedExpired_change h fun entry hentry hexpired =>
        absurd hexpired (hkeeps entry hentry)
  | enable skillId =>
      intro id hid entry hentry
      change (enable skillId s.skills).1.get id = some entry at hentry
      unfold enable at hentry
      split at hentry
      · exact h id hid entry hentry
      · next old hold =>
          split_ifs at hentry with hstatus
          · exact h id hid entry hentry
          · -- the guard of `enable` lets no expired entry through
            have hne : id ≠ skillId := by
              rintro rfl
              exact hstatus (h id hid old hold)
            rw [InsertionMap.get_set_of_ne _ _ hne] at hentry
            exact h id hid entry hentry
  | gc unusedDays => exact markedExpired_gc h unusedDays

/-- In the runs in which no expired skill is deprecated or disabled, a skill that a collection has
marked as expired is not active until it is registered again.  Every collection removes only what was
not active, and past its expiry or unused for too long, and returns the number of what it removes. -/
theorem lifecycle_law (hs : (machine defaultExpiryDays).ReachableUnder KeepsExpired s) :
    (∀ id ∈ s.marked, ∀ entry, s.skills.get id = some entry → entry.status ≠ .active) ∧
      ∀ unusedDays : Option Number, ∀ now, s.clock ≤ now →
        Collects now (unusedDays.getD (.ofInt 30)) s.skills (gc now unusedDays s.skills).1
          (gc now unusedDays s.skills).2 := by
  have hmarked : MarkedExpired s := by
    apply hs.invariant
    · intro id hid
      cases hid
    · intro s a s' h hkeeps hstep
      obtain ⟨_, hcall⟩ := Option.ite_none_right_eq_some.mp hstep
      obtain rfl := Option.some.inj hcall
      exact h.step a.1 hkeeps
  refine ⟨fun id hid entry hentry hactive => ?_, fun unusedDays now _ => collects_gc unusedDays⟩
  rw [hmarked id hid entry hentry] at hactive
  cases hactive

/-- A day in milliseconds. -/
def day : Int := 86400000

/-- A skill that expired is neither active after an attempt to enable it, nor removed by it. -/
theorem lifecycle_law_enable : ∃ s : Manager,
    s.marked = ["a"] ∧ (∀ entry, s.skills.get "a" = some entry → entry.status ≠ .active) := by
  have hrun : ((machine (.ofInt 90)).runFrom (machine (.ofInt 90)).init
      [(.register "a" (some (.ofInt 1)) 0, 0), (.gc none, 2 * day), (.enable "a", 3 * day)]).map
      (fun s => s.marked) = some ["a"] := by
    decide +kernel
  obtain ⟨s, hs, hmarked⟩ := Option.map_eq_some_iff.mp hrun
  exact ⟨s, hmarked, (lifecycle_law (Machine.ReachableUnder.init.runFrom (by decide +kernel) hs)).1
    "a" (by rw [hmarked]; exact List.mem_cons_self)⟩

/-- A skill that is marked as expired is active again after it was disabled and enabled. -/
theorem expired_skill_active_again : ∃ s : Manager, (machine (.ofInt 90)).Reachable s ∧
    ∃ id ∈ s.marked, ∃ entry, s.skills.get id = some entry ∧ entry.status = .active := by
  have hrun : ((machine (.ofInt 90)).runFrom (machine (.ofInt 90)).init
      [(.register "a" (some (.ofInt 1)) 0, 0), (.gc none, 2 * day), (.disable "a", 3 * day),
        (.enable "a", 3 * day)]).map
      (fun s => (s.marked, (s.skills.get "a").map SkillLifecycleEntry.status)) =
        some (["a"], some .active) := by
    decide +kernel
  obtain ⟨s, hs, h⟩ := Option.map_eq_some_iff.mp hrun
  obtain ⟨hmarked, hstatus⟩ := Prod.mk.inj h
  obtain ⟨entry, hentry, hactive⟩ := Option.map_eq_some_iff.mp hstatus
  exact ⟨s, Machine.reachable_of_runFrom hs, "a", by rw [hmarked]; exact List.mem_cons_self,
    entry, hentry, hactive⟩

end Runs

end ThinkLocal.Skills.Lifecycle
