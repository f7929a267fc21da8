import ThinkLocal.Foundation.Machine
import ThinkLocal.Js.JsonRoundTrip
import ThinkLocal.Mesh.PeerLearning

/-!
# Peers over restarts

The cycle of learning, writing the cache, starting and learning again.  Neither learner records a
fingerprint that the reader of the cache accepts, so nothing that is recorded is read back, and a
recorded peer takes the place of the locator that was read.
-/

namespace ThinkLocal.Mesh

open Foundation Js

/-- A daemon with the file of the cache. -/
structure CacheState where
  file : Option String
  mesh : MeshManager
  /-- The targets that were read at the start. -/
  targets : List PeerCacheLocator
  /-- The targets that were learned again since the start. -/
  relearned : List String
  /-- The last entry that was recorded of each peer in the whole run. -/
  latest : InsertionMap String AuthenticatedSeenEntry

namespace CacheState

/-- What is read of a file at the start. -/
def loaded (file : Option String) (now : Nat) : List PeerCacheLocator :=
  match file with
  | none => []
  | some raw => parseCache raw now peerCacheTtlMs peerCacheMax

def start (file : Option String) (targets : List PeerCacheLocator)
    (latest : InsertionMap String AuthenticatedSeenEntry) : CacheState :=
  ⟨file, .empty, targets, [], latest⟩

/-- The text of a flush. -/
def flushed (s : CacheState) : String :=
  serializeCache (mergeLocators (exportSeenLocators s.mesh) s.targets)

/-- What is read after a flush. -/
def returned (s : CacheState) (now : Nat) : List PeerCacheLocator :=
  parseCache s.flushed now peerCacheTtlMs peerCacheMax

def record (s : CacheState) (entry : AuthenticatedSeenEntry) (now : Nat) : CacheState :=
  { s with
    mesh := s.mesh.recordAuthenticatedSeen entry now
    latest := s.latest.set entry.peerId { entry with lastSeen := now } }

end CacheState

inductive CacheAction
  | inbound (deps : LearnInboundPeerDeps) (now : Nat)
  | relearn (target : PeerCacheLocator) (deps : ReLearnPeerDeps) (now : Nat)
  | flush
  /-- A flush that fails leaves the file. -/
  | flushFailed
  | restart (now : Nat)
  /-- A start that cannot read the file. -/
  | restartUnread

namespace CacheState

def step (s : CacheState) : CacheAction → Option CacheState
  | .inbound deps now =>
      match (learnInboundPeer deps).entry with
      | none => some s
      | some entry => some (s.record entry now)
  | .relearn target deps now =>
      if target ∈ s.targets then
        match (relearnPeer target deps).entry with
        | none => some s
        | some entry => some { s.record entry now with relearned := target.peerId :: s.relearned }
      else none
  | .flush => some { s with file := some s.flushed }
  | .flushFailed => some s
  | .restart now => some (start s.file (loaded s.file now) s.latest)
  | .restartUnread => some (start s.file [] s.latest)

end CacheState

/-- A daemon that is started on a file at a time. -/
def cacheCycle (file : Option String) (now : Nat) : Machine CacheState CacheAction where
  init := .start file (CacheState.loaded file now) .empty
  step := CacheState.step

/-! ## Surviving a restart -/

/-- An entry that is not older than the lifetime of the cache. -/
def Young (now : Nat) (entry : AuthenticatedSeenEntry) : Prop := now ≤ entry.lastSeen + peerCacheTtlMs

instance (now : Nat) : DecidablePred (Young now) := fun _ => inferInstanceAs (Decidable (_ ≤ _))

/-- Fewer peers than the cache holds were recorded later. -/
def AmongNewest (latest : InsertionMap String AuthenticatedSeenEntry)
    (entry : AuthenticatedSeenEntry) : Prop :=
  (latest.values.filter fun e => entry.lastSeen < e.lastSeen).length < peerCacheMax

/-- What a flush and a read at a time return. -/
structure Survives (s : CacheState) (now : Nat) : Prop where
  recorded : ∀ entry ∈ s.latest.values, Young now entry → AmongNewest s.latest entry →
    locatorOf entry ∈ s.returned now
  relearned : ∀ target ∈ s.targets, target.peerId ∈ s.relearned →
    (∀ entry, s.latest.get target.peerId = some entry → Young now entry) →
      ∃ l ∈ s.returned now, l.peerId = target.peerId

variable {s s' : CacheState} {entry : AuthenticatedSeenEntry} {file : Option String} {now start : Nat}

/-- What is recorded has no fingerprint that the reader accepts, and what was learned again is
recorded. -/
structure Recorded (s : CacheState) : Prop where
  fingerprint : ∀ entry ∈ s.latest.values, isPlausibleFingerprint entry.certFingerprint = false
  known : ∀ peerId ∈ s.relearned, (s.latest.get peerId).isSome

theorem Recorded.record (h : Recorded s) (now : Nat)
    (hentry : isPlausibleFingerprint entry.certFingerprint = false) :
    Recorded (s.record entry now) := by
  constructor
  · intro e he
    obtain ⟨key, hget⟩ := InsertionMap.mem_values_iff.mp he
    rw [CacheState.record, InsertionMap.get_set] at hget
    split at hget
    · obtain rfl := Option.some.inj hget
      exact hentry
    · exact h.fingerprint e (InsertionMap.mem_values_iff.mpr ⟨key, hget⟩)
  · intro peerId hpeer
    rw [CacheState.record, InsertionMap.get_set]
    split
    · rfl
    · exact h.known peerId hpeer

theorem recorded_step (h : Recorded s) {a : CacheAction} (hs : s.step a = some s') :
    Recorded s' := by
  cases a with
  | inbound deps now =>
      rw [CacheState.step] at hs
      split at hs
      · obtain rfl := Option.some.inj hs
        exact h
      · next entry hentry =>
          obtain rfl := Option.some.inj hs
          refine h.record now ?_
          rw [certFingerprint_learnInboundPeer hentry]
          exact isPlausibleFingerprint_fingerprint256 deps.digest
  | relearn target deps now =>
      rw [CacheState.step] at hs
      split_ifs at hs
      split at hs
      · obtain rfl := Option.some.inj hs
        exact h
      · next entry hentry =>
          obtain rfl := Option.some.inj hs
          obtain ⟨hpeer, hempty⟩ := certFingerprint_relearnPeer hentry
          have hrecord : Recorded (s.record entry now) := h.record now (by rw [hempty]; decide)
          refine ⟨hrecord.fingerprint, fun peerId hmem => ?_⟩
          -- the target that was learned again is known by now
          rcases List.mem_cons.mp hmem with rfl | hmem
          · rw [← hpeer, CacheState.record, InsertionMap.get_set_self]
            rfl
          · exact hrecord.known peerId hmem
  | flush | flushFailed =>
      obtain rfl := Option.some.inj hs
      exact ⟨h.fingerprint, h.known⟩
  | restart now | restartUnread =>
      obtain rfl := Option.some.inj hs
      exact ⟨h.fingerprint, fun _ hmem => nomatch hmem⟩

theorem reachable_recorded (h : (cacheCycle file start).Reachable s) : Recorded s := by
  have hinit : Recorded (cacheCycle file start).init :=
    ⟨fun _ hmem => (nomatch hmem), fun _ hmem => (nomatch hmem)⟩
  exact h.invariant hinit fun _ _ _ hrecorded hs => recorded_step hrecorded hs

/-- A recorded entry is never read back. -/
theorem Recorded.not_mem_returned (h : Recorded s) (hentry : entry ∈ s.latest.values) (now : Nat) :
    locatorOf entry ∉ s.returned now := by
  intro hmem
  have hplausible := (wellFormed_of_mem_parseCache hmem).fingerprint
  rw [locatorOf, h.fingerprint entry hentry] at hplausible
  cases hplausible

/-- The newest entry is among the newest ones. -/
theorem exists_newest (h : entry ∈ s.latest.values) :
    ∃ newest ∈ s.latest.values, entry.lastSeen ≤ newest.lastSeen ∧ AmongNewest s.latest newest := by
  obtain ⟨newest, hnewest⟩ : ∃ e, e ∈ s.latest.values.argmax fun e => e.lastSeen := by
    cases hmax : s.latest.values.argmax fun e => e.lastSeen with
    | none =>
        rw [List.argmax_eq_none] at hmax
        rw [hmax] at h
        cases h
    | some newest => exact ⟨newest, rfl⟩
  have hle : ∀ e ∈ s.latest.values, e.lastSeen ≤ newest.lastSeen :=
    fun e he => List.le_of_mem_argmax he hnewest
  refine ⟨newest, List.argmax_mem hnewest, hle entry h, ?_⟩
  have hnone : (s.latest.values.filter fun e => newest.lastSeen < e.lastSeen) = [] := by
    rw [List.filter_eq_nil_iff]
    intro e he hlt
    exact absurd (of_decide_eq_true hlt) (not_lt.mpr (hle e he))
  rw [AmongNewest, hnone]
  decide

/-- In every run, what was recorded and learned again survives a restart exactly if nothing was
recorded within the lifetime of the cache. -/
theorem peers_survive (hs : (cacheCycle file start).Reachable s) (now : Nat) :
    Survives s now ↔ ∀ entry ∈ s.latest.values, ¬ Young now entry := by
  have hrecorded := reachable_recorded hs
  constructor
  · intro hsurvives entry hentry hyoung
    obtain ⟨newest, hmem, hle, hamong⟩ := exists_newest hentry
    have hyoung' : Young now newest := by
      unfold Young at hyoung ⊢
      omega
    exact hrecorded.not_mem_returned hmem now (hsurvives.recorded newest hmem hyoung' hamong)
  · intro hold
    refine ⟨fun entry hentry hyoung => absurd hyoung (hold entry hentry), ?_⟩
    intro target _ hrelearned hyoung
    obtain ⟨entry, hget⟩ := Option.isSome_iff_exists.mp (hrecorded.known _ hrelearned)
    exact absurd (hyoung entry hget) (hold entry (InsertionMap.mem_values_iff.mpr ⟨_, hget⟩))

/-- What a flush writes is read as its document. -/
theorem returned_eq (s : CacheState) (now : Nat) :
    s.returned now = readDocument now peerCacheTtlMs peerCacheMax
      (cacheDocument (mergeLocators (exportSeenLocators s.mesh) s.targets)).reread := by
  rw [CacheState.returned, CacheState.flushed, parseCache, serializeCache, Json.parse_stringify]

/-! ## A peer that is lost -/

def sampleDigest : Digest := ⟨List.replicate 32 171, rfl⟩

def sampleCard : Fetch := .fetched (some ⟨some (peerIdToSpiffeUri "A"), some "key"⟩)

def sampleInbound : LearnInboundPeerDeps where
  peerId := "A"
  senderUri := peerIdToSpiffeUri "A"
  remoteAddress := "10.0.0.2"
  port := 9440
  digest := sampleDigest
  isAlreadyResolvable := false
  rateLimitOk := true
  fetchCard := fun _ => sampleCard
  resolveFallbackAddress := none
  isFallbackAddressAllowed := fun _ => true
  fetchCardPinned := none

/-- A locator that the reader accepts. -/
def sampleTarget : PeerCacheLocator :=
  ⟨"A", peerIdToSpiffeUri "A", "https://10.0.0.2:9440", String.ofList (List.replicate 64 'a'), 500⟩

def sampleRelearn : ReLearnPeerDeps := ⟨false, true, true, fun _ => sampleCard⟩

def sampleFile : Option String := some (serializeCache [sampleTarget])

theorem loaded_sampleFile : CacheState.loaded sampleFile 1000 = [sampleTarget] := by
  rw [sampleFile, CacheState.loaded, parseCache, serializeCache, Json.parse_stringify]
  decide +kernel

/-- A peer that was recorded does not survive a restart, until the entry is too old anyway. -/
theorem peers_survive_inbound : ∃ s, (cacheCycle none 0).runFrom (cacheCycle none 0).init
    [.inbound sampleInbound 1000, .flush] = some s ∧ s.latest.size = 1 ∧
      ¬ Survives s 1000 ∧ Survives s (1001 + peerCacheTtlMs) := by
  have hrun : ((cacheCycle none 0).runFrom (cacheCycle none 0).init
      [.inbound sampleInbound 1000, .flush]).map (fun s => s.latest.values.map (·.lastSeen)) =
        some [1000] := by decide +kernel
  obtain ⟨s, hs, hseen⟩ := Option.map_eq_some_iff.mp hrun
  have hreach := Machine.reachable_of_runFrom hs
  obtain ⟨entry, hvalues, hentry⟩ := List.map_eq_singleton_iff.mp hseen
  refine ⟨s, hs, ?_, fun hsurvives => ?_, (peers_survive hreach _).mpr ?_⟩
  · have hlength := congrArg List.length hvalues
    rwa [InsertionMap.values, List.length_map] at hlength
  · refine (peers_survive hreach 1000).mp hsurvives entry (by simp [hvalues]) ?_
    rw [Young, hentry]
    omega
  · intro e he hyoung
    rw [hvalues, List.mem_singleton] at he
    rw [Young, he, hentry] at hyoung
    omega

/-- A recorded entry is not read back; and a target that is learned again is lost, where a flush
before kept it. -/
theorem peers_lost :
    (∃ s, (cacheCycle none 0).Reachable s ∧ ∃ entry ∈ s.latest.values, Young 1000 entry ∧
        AmongNewest s.latest entry ∧ locatorOf entry ∉ s.returned 1000) ∧
      ∃ s, (cacheCycle sampleFile 1000).Reachable s ∧
        (cacheCycle sampleFile 1000).init.returned 1000 = [sampleTarget] ∧
        sampleTarget ∈ s.targets ∧ sampleTarget.peerId ∈ s.relearned ∧ s.returned 1000 = [] := by
  constructor
  · -- the run is evaluated on what the statement reads, not on whole states
    have hrun : ((cacheCycle none 0).runFrom (cacheCycle none 0).init
        [.inbound sampleInbound 1000]).map (fun s => s.latest.values.map (·.lastSeen)) =
          some [1000] := by decide +kernel
    obtain ⟨s, hs, hseen⟩ := Option.map_eq_some_iff.mp hrun
    have hreach := Machine.reachable_of_runFrom hs
    obtain ⟨entry, hvalues, hentry⟩ := List.map_eq_singleton_iff.mp hseen
    have hmem : entry ∈ s.latest.values := by simp [hvalues]
    obtain ⟨newest, hnewest, hle, hamong⟩ := exists_newest hmem
    refine ⟨s, hreach, newest, hnewest, ?_, hamong,
      (reachable_recorded hreach).not_mem_returned hnewest 1000⟩
    rw [Young]
    omega
  · have hinit : (cacheCycle sampleFile 1000).init = .start sampleFile [sampleTarget] .empty := by
      rw [cacheCycle, loaded_sampleFile]
    have hrun : ((cacheCycle sampleFile 1000).runFrom (cacheCycle sampleFile 1000).init
        [.relearn sampleTarget sampleRelearn 1000]).map
          (fun s => (s.targets, s.relearned, readDocument 1000 peerCacheTtlMs peerCacheMax
            (cacheDocument (mergeLocators (exportSeenLocators s.mesh) s.targets)).reread)) =
        some ([sampleTarget], ["A"], []) := by
      rw [hinit]
      decide +kernel
    obtain ⟨s, hs, hfacts⟩ := Option.map_eq_some_iff.mp hrun
    simp only [Prod.mk.injEq] at hfacts
    obtain ⟨htargets, hrelearned, hreturned⟩ := hfacts
    refine ⟨s, Machine.reachable_of_runFrom hs, ?_, ?_, ?_, ?_⟩
    · rw [hinit, returned_eq]
      decide +kernel
    · rw [htargets]
      exact List.mem_singleton_self _
    · rw [hrelearned]
      exact List.mem_singleton_self _
    · rw [returned_eq, hreturned]

end ThinkLocal.Mesh
