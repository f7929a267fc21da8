import ThinkLocal.Foundation.Machine
import ThinkLocal.Js.EntryFile

/-!
# The revocation list

`CertificateRevocationList` of `crl.ts` with its file `crl.json`.  A change is written to a second file
that is renamed; an error is logged and the call returns, so a revocation may be in the memory only.
The loader keeps what it has read when it meets an error, and the next change writes what was loaded.
-/

namespace ThinkLocal.Crl

open Foundation Js EntryFile

/-! ## The list -/

structure CRLEntry where
  fingerprint : String
  revokedAt : String
  reason : String
  agentId : Option String

def CRLEntry.json (entry : CRLEntry) : Json :=
  .object ([("fingerprint", .string entry.fingerprint), ("revokedAt", .string entry.revokedAt),
    ("reason", .string entry.reason)] ++
      (entry.agentId.map fun agentId => ("agentId", Json.string agentId)).toList)

/-- `load`; a file that cannot be read is logged. -/
def loadList (readFails : Bool) (file : Option String) : EntryMap :=
  if readFails then .empty else load "fingerprint" file

def isRevoked (entries : EntryMap) (fingerprint : String) : Bool :=
  entries.has (.text fingerprint)

inductive Call
  /-- `revoke`, with the entry that it makes. -/
  | revoke (entry : CRLEntry)
  | unrevoke (fingerprint : String)

/-- The map after a call. -/
def apply (entries : EntryMap) : Call → EntryMap
  | .revoke entry => entries.set (.text entry.fingerprint) entry.json
  | .unrevoke fingerprint => entries.delete (.text fingerprint)

/-- Does the call save the map? -/
def saves (entries : EntryMap) : Call → Bool
  | .revoke _ => true
  | .unrevoke fingerprint => entries.has (.text fingerprint)

/-- The file after a call; `renamed` says whether `save` got to the end. -/
def fileAfter (entries : EntryMap) (file : Option String) (call : Call) (renamed : Bool) :
    Option String :=
  if saves entries call && renamed then some (saved (apply entries call)) else file

/-! ## Runs -/

/-- A daemon with its file. -/
structure State where
  file : Option String
  /-- The map of the running daemon. -/
  entries : Option EntryMap
  /-- The fingerprints for which `revoke` returned, without a call of `unrevoke` or damage since. -/
  revoked : List String
  /-- Those of them that were revoked since the last save. -/
  unsaved : List String
  /-- What could be read in the file when it was damaged, without a call of `unrevoke` since. -/
  kept : List String
  /-- Whether the read failed at the start, and the file then, until the next save. -/
  started : Option (Bool × Option String)

inductive Action
  | call (call : Call) (renamed : Bool)
  /-- The daemon dies in a call. -/
  | crash (call : Call) (renamed : Bool)
  | stop
  /-- The file is changed between two runs. -/
  | damage (content : Option String)
  | start (readFails : Bool)

/-- The list without the fingerprint of an `unrevoke`. -/
def Call.without : Call → List String → List String
  | .revoke _, fingerprints => fingerprints
  | .unrevoke fingerprint, fingerprints => fingerprints.filter (· ≠ fingerprint)

/-- What a call revokes. -/
def Call.revokes : Call → List String
  | .revoke entry => [entry.fingerprint]
  | .unrevoke _ => []

/-- The state after a call that returned. -/
def State.call (s : State) (entries : EntryMap) (call : Call) (renamed : Bool) : State where
  file := fileAfter entries s.file call renamed
  entries := some (apply entries call)
  revoked := call.revokes ++ call.without s.revoked
  unsaved := if saves entries call && renamed then [] else call.revokes ++ call.without s.unsaved
  kept := call.without s.kept
  started := if saves entries call && renamed then none else s.started

/-- The state after a call in which the daemon died. -/
def State.crash (s : State) (entries : EntryMap) (call : Call) (renamed : Bool) : State where
  file := fileAfter entries s.file call renamed
  entries := none
  revoked := call.without s.revoked
  unsaved := []
  kept := call.without s.kept
  started := none

def step (s : State) : Action → Option State
  | .call call renamed => s.entries.map fun entries => s.call entries call renamed
  | .crash call renamed => s.entries.map fun entries => s.crash entries call renamed
  | .stop => s.entries.map fun _ => { s with entries := none, unsaved := [], started := none }
  | .damage content =>
      match s.entries with
      | some _ => none
      | none =>
          some { s with file := content, revoked := [], kept := readableTexts "fingerprint" content }
  | .start readFails =>
      match s.entries with
      | some _ => none
      | none =>
          some { s with
            entries := some (loadList readFails s.file)
            started := some (readFails, s.file) }

/-- A daemon before its first start. -/
def crl : Machine State Action where
  init := ⟨none, none, [], [], [], none⟩
  step := step

/-! ## Undisturbed runs -/

/-- The start has read the file, which was an array without a revocation behind a `null`, or there
was no revocation to be read in it. -/
def StartedWhole (s : State) : Prop :=
  ∀ readFails file, s.started = some (readFails, file) →
    readableTexts "fingerprint" file = [] ∨ readFails = false ∧ Whole "fingerprint" file

/-- A save follows on a start that has read a whole file, and nothing is written as `null`; the daemon
stops or dies only when the last save of a revocation has not failed; and the file can be read as long
as something is revoked. -/
def Undisturbed (s : State) : Action → Prop
  | .call call renamed => ∀ entries ∈ s.entries, (saves entries call && renamed) = true →
      StartedWhole s ∧ Writable entries
  | .crash call renamed => ∀ entries ∈ s.entries,
      if saves entries call && renamed then StartedWhole s ∧ Writable entries
      else call.without s.unsaved = []
  | .stop => s.unsaved = []
  | .damage _ => True
  | .start readFails => readFails = true → s.revoked = []

/-- What was revoked is revoked, and what could be read in a damaged file still can. -/
structure Durable (s : State) : Prop where
  revoked : ∀ entries ∈ s.entries, ∀ fingerprint ∈ s.revoked, isRevoked entries fingerprint = true
  kept : ∀ fingerprint ∈ s.kept, fingerprint ∈ readableTexts "fingerprint" s.file

/-! ## The invariant -/

structure CrlInv (s : State) : Prop where
  durable : Durable s
  /-- The daemon is stopped: the next start loads what is revoked. -/
  stopped : s.entries = none →
    (∀ fingerprint ∈ s.revoked, fingerprint ∈ loadedTexts "fingerprint" s.file)
  running : ∀ entries ∈ s.entries, Keyed "fingerprint" entries ∧
    (∀ fingerprint ∈ s.revoked,
      fingerprint ∈ s.unsaved ∨ fingerprint ∈ loadedTexts "fingerprint" s.file) ∧
    (StartedWhole s → ∀ fingerprint ∈ s.kept, isRevoked entries fingerprint = true)

variable {s s' : State} {entries : EntryMap} {call : Call} {fingerprint : String}

theorem isRevoked_iff : isRevoked entries fingerprint = true ↔ .text fingerprint ∈ entries.keys := by
  rw [isRevoked, InsertionMap.has, ← Option.ne_none_iff_isSome, ne_eq,
    InsertionMap.get_eq_none_iff, not_not]

theorem mem_without {fingerprints : List String} : fingerprint ∈ call.without fingerprints ↔
    fingerprint ∈ fingerprints ∧ call ≠ .unrevoke fingerprint := by
  cases call with
  | revoke entry => exact ⟨fun h => ⟨h, nofun⟩, fun h => h.1⟩
  | unrevoke dropped =>
      rw [Call.without, List.mem_filter, decide_eq_true_eq, ne_eq, ne_eq, Call.unrevoke.injEq,
        eq_comm]

theorem isRevoked_apply : isRevoked (apply entries call) fingerprint = true ↔
    fingerprint ∈ call.revokes ∨
      isRevoked entries fingerprint = true ∧ call ≠ .unrevoke fingerprint := by
  unfold isRevoked InsertionMap.has
  cases call with
  | revoke entry =>
      rw [apply, InsertionMap.get_set, Call.revokes, List.mem_singleton]
      by_cases hsame : fingerprint = entry.fingerprint
      · simp [hsame]
      · simp [hsame]
  | unrevoke dropped =>
      rw [apply, InsertionMap.get_delete, Call.revokes]
      by_cases hsame : fingerprint = dropped
      · simp [hsame]
      · simp [hsame, Ne.symm hsame]

theorem keyed_apply (h : Keyed "fingerprint" entries) (call : Call) :
    Keyed "fingerprint" (apply entries call) := by
  cases call with
  | revoke entry =>
      have hkeyed : entry.json.KeyedOnce := by
        cases hagent : entry.agentId <;> simp [CRLEntry.json, Json.KeyedOnce, hagent]
      have hkey : entryKey "fingerprint" 0 entry.json = some (.text entry.fingerprint) := rfl
      exact h.set hkeyed hkey
  | unrevoke dropped => exact h.delete _

/-- A call adds nothing that is written as `null`. -/
theorem writable_apply (h : Writable entries) (call : Call) : Writable (apply entries call) := by
  intro value hvalue
  obtain ⟨key, hget⟩ := InsertionMap.mem_values_iff.mp hvalue
  cases call with
  | revoke entry =>
      rw [apply, InsertionMap.get_set] at hget
      split at hget
      · obtain rfl := Option.some.inj hget
        rfl
      · exact h value (InsertionMap.mem_values_iff.mpr ⟨key, hget⟩)
  | unrevoke dropped =>
      exact h value (InsertionMap.mem_values_iff.mpr ⟨key, (InsertionMap.get_of_get_delete hget).2⟩)

/-- What a save leaves in the file. -/
theorem mem_loadedTexts_fileAfter (file : Option String) (fingerprint : String) {renamed : Bool}
    (h : Keyed "fingerprint" entries) (hsaved : (saves entries call && renamed) = true)
    (hwritable : Writable (apply entries call)) :
    (fingerprint ∈ loadedTexts "fingerprint" (fileAfter entries file call renamed) ↔
      isRevoked (apply entries call) fingerprint = true) ∧
    (fingerprint ∈ readableTexts "fingerprint" (fileAfter entries file call renamed) ↔
      isRevoked (apply entries call) fingerprint = true) := by
  rw [fileAfter, if_pos hsaved, loadedTexts_saved hwritable,
    mem_readableTexts_saved (keyed_apply h call), isRevoked_iff]
  exact ⟨Iff.rfl, Iff.rfl⟩

theorem crlInv_init : CrlInv crl.init where
  durable := ⟨nofun, nofun⟩
  stopped := fun _ => nofun
  running := nofun

section Running

variable (h : CrlInv s) (hentries : s.entries = some entries)

include h hentries

/-- What stays revoked is revoked after a call. -/
theorem CrlInv.revoked_apply (hmem : fingerprint ∈ call.revokes ++ call.without s.revoked) :
    isRevoked (apply entries call) fingerprint = true := by
  rw [isRevoked_apply]
  rcases List.mem_append.mp hmem with hmem | hmem
  · exact .inl hmem
  · obtain ⟨hmem, hne⟩ := mem_without.mp hmem
    exact .inr ⟨h.durable.revoked entries hentries fingerprint hmem, hne⟩

/-- What could be read in a damaged file is in the map that a call saves. -/
theorem CrlInv.kept_apply (hwhole : StartedWhole s) (hmem : fingerprint ∈ call.without s.kept) :
    isRevoked (apply entries call) fingerprint = true := by
  obtain ⟨hmem, hne⟩ := mem_without.mp hmem
  exact isRevoked_apply.mpr
    (.inr ⟨(h.running entries hentries).2.2 hwhole fingerprint hmem, hne⟩)

/-- After a completed save the file holds what the memory does. -/
theorem CrlInv.after_saved {renamed : Bool}
    (hsaved : (saves entries call && renamed) = true) (hwhole : StartedWhole s)
    (hwritable : Writable entries) : CrlInv (s.call entries call renamed) := by
  have hkeyed := (h.running entries hentries).1
  have hfile := fun fingerprint =>
    mem_loadedTexts_fileAfter s.file fingerprint hkeyed hsaved (writable_apply hwritable call)
  refine ⟨⟨?_, fun fingerprint hmem => ?_⟩, nofun, ?_⟩
  · intro entries' hentries' fingerprint hmem
    obtain rfl := Option.some.inj hentries'
    exact h.revoked_apply hentries hmem
  · exact (hfile fingerprint).2.mpr (h.kept_apply hentries hwhole hmem)
  · intro entries' hentries'
    obtain rfl := Option.some.inj hentries'
    refine ⟨keyed_apply hkeyed call, fun fingerprint hmem => .inr ?_, fun _ fingerprint hmem => ?_⟩
    · exact (hfile fingerprint).1.mpr (h.revoked_apply hentries hmem)
    · exact h.kept_apply hentries hwhole hmem

/-- A call without a completed save leaves the file as it is. -/
theorem CrlInv.after_unsaved {renamed : Bool} (hsaved : ¬ (saves entries call && renamed) = true) :
    CrlInv (s.call entries call renamed) := by
  have hfile : (s.call entries call renamed).file = s.file := if_neg hsaved
  have hunsaved : (s.call entries call renamed).unsaved =
      call.revokes ++ call.without s.unsaved := if_neg hsaved
  have hstarted : (s.call entries call renamed).started = s.started := if_neg hsaved
  obtain ⟨hkeyed, hloaded, hkept⟩ := h.running entries hentries
  refine ⟨⟨?_, fun fingerprint hmem => ?_⟩, nofun, ?_⟩
  · intro entries' hentries' fingerprint hmem
    obtain rfl := Option.some.inj hentries'
    exact h.revoked_apply hentries hmem
  · rw [hfile]
    exact h.durable.kept fingerprint (mem_without.mp hmem).1
  · intro entries' hentries'
    obtain rfl := Option.some.inj hentries'
    refine ⟨keyed_apply hkeyed call, fun fingerprint hmem => ?_, fun hwhole fingerprint hmem => ?_⟩
    · rw [hunsaved, hfile]
      rcases List.mem_append.mp hmem with hmem | hmem
      · exact .inl (List.mem_append_left _ hmem)
      · obtain ⟨hmem, hne⟩ := mem_without.mp hmem
        -- what was loaded is in the file or still to be saved
        exact (hloaded fingerprint hmem).imp_left fun hunsaved =>
          List.mem_append_right _ (mem_without.mpr ⟨hunsaved, hne⟩)
    · refine h.kept_apply hentries (fun readFails file hfrom => ?_) hmem
      exact hwhole readFails file (hstarted.trans hfrom)

theorem CrlInv.after_call {renamed : Bool}
    (hsaves : (saves entries call && renamed) = true → StartedWhole s ∧ Writable entries) :
    CrlInv (s.call entries call renamed) := by
  by_cases hsaved : (saves entries call && renamed) = true
  · exact h.after_saved hentries hsaved (hsaves hsaved).1 (hsaves hsaved).2
  · exact h.after_unsaved hentries hsaved

end Running

/-- A daemon that stops with everything saved. -/
theorem CrlInv.of_stopped (h : CrlInv s) (hsaved : s.unsaved = []) (hstopped : s'.entries = none)
    (hfile : s'.file = s.file) (hrevoked : ∀ fingerprint ∈ s'.revoked, fingerprint ∈ s.revoked)
    (hkept : ∀ fingerprint ∈ s'.kept, fingerprint ∈ s.kept) (hrunning : s.entries ≠ none) :
    CrlInv s' := by
  obtain ⟨entries, hentries⟩ := Option.ne_none_iff_exists'.mp hrunning
  refine ⟨⟨fun _ hnone => ?_, fun fingerprint hmem => ?_⟩, fun _ fingerprint hmem => ?_,
    fun _ hnone => ?_⟩
  · rw [hstopped] at hnone
    cases hnone
  · rw [hfile]
    exact h.durable.kept fingerprint (hkept fingerprint hmem)
  · rw [hfile]
    rcases (h.running entries hentries).2.1 fingerprint (hrevoked fingerprint hmem) with
      hunsaved | hloaded
    · rw [hsaved] at hunsaved
      cases hunsaved
    · exact hloaded
  · rw [hstopped] at hnone
    cases hnone

/-- A daemon that dies in a call has done it, or it has not and everything else is saved. -/
theorem CrlInv.after_crash (h : CrlInv s) (hentries : s.entries = some entries) {renamed : Bool}
    (hcondition : if saves entries call && renamed then StartedWhole s ∧ Writable entries
      else call.without s.unsaved = []) : CrlInv (s.crash entries call renamed) := by
  by_cases hsaved : (saves entries call && renamed) = true
  · rw [if_pos hsaved] at hcondition
    have hcalled := h.after_saved hentries hsaved hcondition.1 hcondition.2
    have hunsaved : (s.call entries call renamed).unsaved = [] := if_pos hsaved
    exact hcalled.of_stopped hunsaved rfl rfl (fun _ => List.mem_append_right _) (fun _ => id) nofun
  · rw [if_neg hsaved] at hcondition
    have hfile : (s.crash entries call renamed).file = s.file := if_neg hsaved
    refine ⟨⟨nofun, fun fingerprint hmem => ?_⟩, fun _ fingerprint hmem => ?_, nofun⟩
    · rw [hfile]
      exact h.durable.kept fingerprint (mem_without.mp hmem).1
    · rw [hfile]
      obtain ⟨hmem, hne⟩ := mem_without.mp hmem
      rcases (h.running entries hentries).2.1 fingerprint hmem with hunsaved | hloaded
      · have hleft := mem_without.mpr ⟨hunsaved, hne⟩
        rw [hcondition] at hleft
        cases hleft
      · exact hloaded

theorem CrlInv.after_start (h : CrlInv s) (hstopped : s.entries = none) {readFails : Bool}
    (hreads : readFails = true → s.revoked = []) {t : State}
    (hstep : step s (.start readFails) = some t) : CrlInv t := by
  simp only [step, hstopped, Option.some.injEq] at hstep
  subst hstep
  have hkeyed : Keyed "fingerprint" (loadList readFails s.file) := by
    unfold loadList
    split_ifs
    · exact keyed_empty
    · exact keyed_load _ _
  refine ⟨⟨?_, h.durable.kept⟩, nofun, ?_⟩
  · intro entries hentries fingerprint hmem
    obtain rfl := Option.some.inj hentries
    -- a start that cannot read its file has an empty list, which is right only for a new one
    cases readFails with
    | true =>
        have hmem : fingerprint ∈ s.revoked := hmem
        rw [hreads rfl] at hmem
        cases hmem
    | false => exact isRevoked_iff.mpr (mem_keys_load.mpr (h.stopped hstopped fingerprint hmem))
  · intro entries hentries
    obtain rfl := Option.some.inj hentries
    refine ⟨hkeyed, fun fingerprint hmem => .inr (h.stopped hstopped fingerprint hmem),
      fun hwhole fingerprint hmem => ?_⟩
    have hreadable := h.durable.kept fingerprint hmem
    rcases hwhole readFails s.file rfl with hnone | ⟨rfl, hall⟩
    · rw [hnone] at hreadable
      cases hreadable
    · exact isRevoked_iff.mpr (mem_keys_load.mpr (readableTexts_subset_of_whole hall hreadable))

theorem CrlInv.step (h : CrlInv s) {action : Action} (hcondition : Undisturbed s action)
    (hstep : Crl.step s action = some s') : CrlInv s' := by
  cases action with
  | call call renamed =>
      obtain ⟨entries, hentries, rfl⟩ := Option.map_eq_some_iff.mp hstep
      exact h.after_call hentries (hcondition entries hentries)
  | crash call renamed =>
      obtain ⟨entries, hentries, rfl⟩ := Option.map_eq_some_iff.mp hstep
      exact h.after_crash hentries (hcondition entries hentries)
  | stop =>
      obtain ⟨entries, hentries, rfl⟩ := Option.map_eq_some_iff.mp hstep
      exact h.of_stopped hcondition rfl rfl (fun _ => id) (fun _ => id) (by simp [hentries])
  | damage content =>
      cases hentries : s.entries with
      | some entries => simp [Crl.step, hentries] at hstep
      | none =>
          simp only [Crl.step, hentries, Option.some.injEq] at hstep
          subst hstep
          exact ⟨⟨nofun, fun _ => id⟩, fun _ => nofun, nofun⟩
  | start readFails =>
      cases hentries : s.entries with
      | some entries => simp [Crl.step, hentries] at hstep
      | none => exact h.after_start hentries hcondition hstep

/-- In an undisturbed run revocations are durable. -/
theorem revocations_durable (h : crl.ReachableUnder Undisturbed s) : Durable s :=
  (h.invariant crlInv_init fun _ _ _ hinv hcondition hstep => hinv.step hcondition hstep).durable

/-- A revocation without an agent. -/
def someRevocation (fingerprint : String) : CRLEntry where
  fingerprint := fingerprint
  revokedAt := "2026-01-01T00:00:00.000Z"
  reason := "compromised"
  agentId := none

/-- A revocation that is saved survives a restart. -/
theorem revocations_durable_restart : ∃ s,
    crl.runFrom crl.init [.start false, .call (.revoke (someRevocation "a")) true, .stop,
      .start false] = some s ∧ s.revoked = ["a"] ∧ Durable s := by
  have hmeets : crl.Meets Undisturbed crl.init [.start false,
      .call (.revoke (someRevocation "a")) true, .stop, .start false] := by
    refine ⟨nofun, fun s₁ h₁ => ?_⟩
    obtain rfl := Option.some.inj h₁
    refine ⟨fun entries hentries _ => ?_, fun s₂ h₂ => ?_⟩
    · obtain rfl := Option.some.inj hentries
      refine ⟨fun readFails file hstarted => .inl ?_, fun entry hentry => ?_⟩
      · obtain ⟨rfl, rfl⟩ := Prod.mk.inj (Option.some.inj hstarted)
        rfl
      · exact absurd hentry List.not_mem_nil
    · obtain rfl := Option.some.inj h₂
      refine ⟨rfl, fun s₃ h₃ => ?_⟩
      obtain rfl := Option.some.inj h₃
      exact ⟨nofun, fun _ _ => trivial⟩
  exact ⟨_, rfl, rfl, revocations_durable (Machine.ReachableUnder.init.runFrom hmeets rfl)⟩

/-- A file with a `null` before a revocation, and a torn one. -/
def damagedFiles : List String :=
  ["[null,\x7b\"fingerprint\":\"b\"\x7d]", "[\x7b\"fingerprint\":\"b\"\x7d,\x7b\"finger"]

/-- The save of a revocation fails and the daemon is restarted; and a start on a damaged file, after
which another revocation is saved. -/
theorem revocation_lost :
    (∃ s, crl.Reachable s ∧ ∃ entries ∈ s.entries, ∃ fingerprint ∈ s.revoked,
      isRevoked entries fingerprint = false) ∧
    ∀ file ∈ damagedFiles, ∃ s, crl.runFrom crl.init [.damage (some file), .start false,
      .call (.revoke (someRevocation "a")) true] = some s ∧ ∃ fingerprint ∈ s.kept,
      fingerprint ∉ readableTexts "fingerprint" s.file := by
  have hreachable : ∀ actions s, crl.runFrom crl.init actions = some s → crl.Reachable s :=
    fun _ _ => Machine.reachable_of_runFrom
  constructor
  · refine ⟨_, hreachable [.start false, .call (.revoke (someRevocation "a")) false, .stop,
      .start false] _ rfl, _, rfl, "a", List.mem_singleton.mpr rfl, ?_⟩
    decide +kernel
  · intro file hfile
    rcases List.mem_pair.mp hfile with rfl | rfl
    all_goals
      refine ⟨_, rfl, "b", ?_, ?_⟩
      · decide +kernel
      · decide +kernel

end ThinkLocal.Crl
