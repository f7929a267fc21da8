import ThinkLocal.Sessions.SessionWatcher

/-!
# Which lines are in the store

The store holds the events of the first lines of the session file, each once and in order, as long
as a run appends only what lies behind the lines of all runs before it.  For this it must have read
the offset that is in `state.json` when it appends, no other run may have appended without having
written, and what is written must be the number of bytes that were read.  Then the store also has
every complete line that a run has seen which has ended with a result.
-/

namespace ThinkLocal.Sessions

open Foundation Js

variable {jsonParse : String → Option Data} {instanceUuid : String} {started : Option (Int × Nat)}
  {w w' : SessionWatcher} {k : Nat}

/-- A watcher with the adapter. -/
def claudeCode (jsonParse : String → Option Data) (instanceUuid : String) : SessionWatcherOptions where
  parseBuffer := parseClaudeCodeBuffer jsonParse
  instanceUuid := instanceUuid

/-- The offset in `state.json`. -/
def SessionWatcher.offset (w : SessionWatcher) : Nat :=
  (w.persisted.map SessionState.tailOffset).getD 0

/-- The events of bytes of the file, under the instance. -/
def fileEvents (jsonParse : String → Option Data) (instanceUuid : String) (bytes : Bytes) :
    List SessionEvent :=
  (textEvents jsonParse (decodeUtf8 bytes)).map fun event => { event with instanceUuid }

/-- The run has appended what it has seen of the file. -/
def Phase.seen : Phase → Option Nat
  | appended _ size _ | written _ size _ => some size
  | _ => none

/-- The store holds the events of the first `k` bytes, which are complete lines, with consecutive
numbers, and of all complete lines that the runs have found which have appended. -/
structure IngestedTo (jsonParse : String → Option Data) (instanceUuid : String) (w : SessionWatcher)
    (k : Nat) : Prop where
  within : k ≤ w.file.length
  complete : completeLines 10 (w.file.take k) = w.file.take k
  rows : w.store.rows = numbered 0 (fileEvents jsonParse instanceUuid (w.file.take k))
  seen : ∀ run phase size, w.runs.get run = some phase → phase.seen = some size →
    (completeLines 10 (w.file.take size)).length ≤ k

/-- The complete lines of a size that has been seen lie in the first `k` bytes. -/
def SessionWatcher.Covers (w : SessionWatcher) (size k : Nat) : Prop :=
  size ≤ w.file.length ∧ (completeLines 10 (w.file.take size)).length ≤ k

def Phase.isAppended : Phase → Bool
  | appended _ _ _ => true
  | _ => false

/-- No run has appended without having written `state.json`. -/
def SessionWatcher.Settled (w : SessionWatcher) : Prop :=
  ∀ run phase, w.runs.get run = some phase → phase.isAppended = false

/-- The bytes of the complete lines are as many as those of their text. -/
def SameLength (bytes : Bytes) : Prop :=
  byteLength (decodeUtf8 (completeLines 10 bytes)) = (completeLines 10 bytes).length

/-- What the appends of a run need. -/
def Phase.Appendable (w : SessionWatcher) : Phase → Prop
  | loaded state _ bytes => state.tailOffset = w.offset ∧ w.Settled ∧ SameLength bytes
  | _ => True

/-- A run looks at the size of the file with an offset that is not behind that of `state.json`. -/
def Phase.Startable (w : SessionWatcher) : Phase → Prop
  | ready state => state.tailOffset ≤ w.offset
  | _ => True

/-- The run has appended no event that it has yet to write. -/
def Phase.NothingPending : Phase → Prop
  | appended _ _ ingested => ingested = 0
  | _ => True

/-- A run starts from the offset of `state.json`, appends there while no other one is between its
appends and its write, and what has been appended is written. -/
def Orderly (w : SessionWatcher) : Action → Prop
  | .stat run _ => ∀ phase ∈ w.runs.get run, phase.Startable w
  | .append run _ => ∀ phase ∈ w.runs.get run, phase.Appendable w
  | .write run fails => fails = true → ∀ phase ∈ w.runs.get run, phase.NothingPending
  | .crash => ∀ run phase, w.runs.get run = some phase → phase.NothingPending
  | .crashAppending _ _ => False
  | _ => True

instance (w : SessionWatcher) : Decidable w.Settled :=
  Arena.decidableForall w.runs fun _ phase => phase.isAppended = false

instance (bytes : Bytes) : Decidable (SameLength bytes) := Nat.decEq _ _

instance (w : SessionWatcher) (phase : Phase) : Decidable (phase.Appendable w) := by
  cases phase <;> unfold Phase.Appendable <;> infer_instance

instance (w : SessionWatcher) (phase : Phase) : Decidable (phase.Startable w) := by
  cases phase <;> unfold Phase.Startable <;> infer_instance

instance (phase : Phase) : Decidable phase.NothingPending := by
  cases phase <;> unfold Phase.NothingPending <;> infer_instance

instance (w : SessionWatcher) (a : Action) : Decidable (Orderly w a) :=
  match a with
  | .stat run _ => inferInstanceAs (Decidable (∀ phase ∈ w.runs.get run, phase.Startable w))
  | .append run _ => inferInstanceAs (Decidable (∀ phase ∈ w.runs.get run, phase.Appendable w))
  | .write run fails =>
      inferInstanceAs (Decidable (fails = true → ∀ phase ∈ w.runs.get run, phase.NothingPending))
  | .crash => Arena.decidableForall w.runs fun _ phase => phase.NothingPending
  | .crashAppending _ _ => .isFalse id
  | .grow _ | .tick _ | .resume _ | .read _ _ | .load _ _ | .finish _ => .isTrue trivial

/-! ## The store -/

theorem foldl_max_numbered (events : List SessionEvent) (seq : Nat) :
    (numbered seq events).foldl (fun latest row => max latest (row.seq : Int)) ((seq : Int) - 1) =
      (seq : Int) + events.length - 1 := by
  induction events generalizing seq with
  | nil => simp [numbered]
  | cons event rest ih =>
      have hmax : max ((seq : Int) - 1) (seq : Int) = ((seq + 1 : Nat) : Int) - 1 := by omega
      rw [numbered, List.foldl_cons, hmax, ih, List.length_cons]
      push_cast
      ring

/-- The next number is the number of rows. -/
theorem latestSeq_of_numbered {store : SessionEventsStore} {events : List SessionEvent}
    (h : store.rows = numbered 0 events) : (store.latestSeq + 1).toNat = events.length := by
  have hlatest : store.latestSeq = (events.length : Int) - 1 := by
    rw [SessionEventsStore.latestSeq, h]
    simpa using foldl_max_numbered events 0
  omega

theorem mem_map_seq_numbered {events : List SessionEvent} {base seq : Nat}
    (h : seq ∈ (numbered base events).map SessionEventInput.seq) : seq < base + events.length := by
  induction events generalizing base with
  | nil => simp [numbered] at h
  | cons event rest ih =>
      rw [numbered, List.map_cons, List.mem_cons] at h
      rw [List.length_cons]
      rcases h with rfl | h
      · omega
      · have hlt := ih h
        omega

/-- Events that are numbered after the rows are all inserted. -/
theorem appendAll_numbered {store : SessionEventsStore} {events : List SessionEvent}
    (h : store.rows = numbered 0 events) (later : List SessionEvent) :
    (store.appendAll instanceUuid (numbered events.length later)).1.rows =
        numbered 0 (events ++ later.map fun event => { event with instanceUuid }) ∧
      (store.appendAll instanceUuid (numbered events.length later)).2 = later.length := by
  induction later generalizing store events with
  | nil => exact ⟨by simpa [numbered, SessionEventsStore.appendAll] using h, rfl⟩
  | cons event rest ih =>
      -- the number is free, so the row is not ignored
      have hnew : events.length ∉ store.rows.map SessionEventInput.seq := by
        rw [h]
        intro hmem
        have hlt := mem_map_seq_numbered hmem
        omega
      have hinserted : (store.append ⟨events.length, { event with instanceUuid }⟩).1.rows =
          numbered 0 (events ++ [{ event with instanceUuid }]) := by
        rw [SessionEventsStore.append, dif_neg hnew, numbered_append, Nat.zero_add]
        exact congrArg (· ++ _) h
      have hflag : (store.append ⟨events.length, { event with instanceUuid }⟩).2 = true := by
        rw [SessionEventsStore.append, dif_neg hnew]
      obtain ⟨hrows, hcount⟩ := ih hinserted
      rw [List.length_append, List.length_singleton] at hrows hcount
      rw [numbered]
      constructor
      · refine Eq.trans hrows ?_
        rw [List.map_cons, List.append_assoc, List.singleton_append]
      · rw [SessionEventsStore.appendAll]
        dsimp only
        rw [hflag, hcount]
        rfl

/-! ## The invariant -/

/-- What a run has read is what is in the file. -/
def Phase.Fits (file : Bytes) : Phase → Prop
  | sized state size => state.tailOffset < size ∧ size ≤ file.length
  | loaded state size bytes =>
      state.tailOffset < size ∧ size ≤ file.length ∧ bytes = newBytes file state size
  | appended _ size _ | written _ size _ => size ≤ file.length
  | _ => True

/-- The offset is behind the lines in the store, but for one run that has yet to write it. -/
structure Ingest (jsonParse : String → Option Data) (instanceUuid : String) (w : SessionWatcher)
    (k : Nat) : Prop extends IngestedTo jsonParse instanceUuid w k where
  offset_le : w.offset ≤ k
  offset_lines : completeLines 10 (w.file.take w.offset) = w.file.take w.offset
  fits : ∀ run phase, w.runs.get run = some phase → phase.Fits w.file
  pending : ∀ run next size ingested, w.runs.get run = some (.appended next size ingested) →
    next.tailOffset = k ∧ (ingested = 0 → fileEvents jsonParse instanceUuid (w.file.take w.offset) =
      fileEvents jsonParse instanceUuid (w.file.take k))
  single : ∀ run run' phase phase', w.runs.get run = some phase → w.runs.get run' = some phase' →
    phase.isAppended = true → phase'.isAppended = true → run = run'
  settled : w.Settled → w.offset = k
  written : ∀ run phase size, w.runs.get run = some phase → phase.seen = some size →
    phase.isAppended = false → (completeLines 10 (w.file.take size)).length ≤ w.offset
  observed : ∀ size ∈ w.observed, w.Covers size w.offset

/-- A step that touches neither the file nor the store nor the offset and starts, advances or ends
runs that have not appended. -/
theorem Ingest.of_runs (h : Ingest jsonParse instanceUuid w k) (hfile : w'.file = w.file)
    (hstore : w'.store = w.store) (hpersisted : w'.persisted = w.persisted)
    (hobserved : ∀ size ∈ w'.observed, size ∈ w.observed ∨ w.Covers size w.offset)
    (hruns : ∀ run phase, w'.runs.get run = some phase → w.runs.get run = some phase ∨
      (phase.seen = none ∧ phase.Fits w.file))
    (hkept : ∀ run phase, w.runs.get run = some phase → phase.isAppended = true →
      w'.runs.get run = some phase) : Ingest jsonParse instanceUuid w' k := by
  have hoffset : w'.offset = w.offset := by rw [SessionWatcher.offset, hpersisted]; rfl
  -- a run that is new has not read the file, so it has seen no size
  have hseen : ∀ run phase size, w'.runs.get run = some phase → phase.seen = some size →
      w.runs.get run = some phase := by
    intro run phase size hrun hsize
    rcases hruns run phase hrun with hold | ⟨hnone, -⟩
    · exact hold
    · cases hnone.symm.trans hsize
  have happended : ∀ run phase, w'.runs.get run = some phase → phase.isAppended = true →
      w.runs.get run = some phase := by
    intro run phase hrun hisAppended
    cases phase with
    | appended next size ingested => exact hseen run _ size hrun rfl
    | _ => cases hisAppended
  refine ⟨⟨?_, ?_, ?_, ?_⟩, ?_, ?_, ?_, ?_, ?_, ?_, ?_, ?_⟩
  · rw [hfile]
    exact h.within
  · rw [hfile]
    exact h.complete
  · rw [hfile, hstore]
    exact h.rows
  · intro run phase size hrun hsize
    rw [hfile]
    exact h.seen run phase size (hseen run phase size hrun hsize) hsize
  · rw [hoffset]
    exact h.offset_le
  · rw [hoffset, hfile]
    exact h.offset_lines
  · intro run phase hrun
    rw [hfile]
    rcases hruns run phase hrun with hold | ⟨-, hfits⟩
    · exact h.fits run phase hold
    · exact hfits
  · intro run next size ingested hrun
    rw [hoffset, hfile]
    exact h.pending run next size ingested (happended run _ hrun rfl)
  · intro run run' phase phase' hrun hrun' hphase hphase'
    exact h.single run run' phase phase' (happended run phase hrun hphase)
      (happended run' phase' hrun' hphase') hphase hphase'
  · -- the runs that have appended are the same, so the store is ahead exactly if it was
    intro hsettled
    rw [hoffset]
    refine h.settled fun run phase hrun => ?_
    cases hphase : phase.isAppended with
    | false => rfl
    | true => exact (hsettled run phase (hkept run phase hrun hphase)).symm.trans hphase |>.symm
  · intro run phase size hrun hsize hphase
    rw [hfile, hoffset]
    exact h.written run phase size (hseen run phase size hrun hsize) hsize hphase
  · -- sizes that finished runs have seen are covered by the store
    intro size hsize
    rw [SessionWatcher.Covers, hfile, hoffset]
    exact (hobserved size hsize).elim (h.observed size) id

/-- A run that has not appended ends with a result, behind the offset. -/
theorem ne_of_appended {run other : Nat} {phase phase' : Phase} (hrun : w.runs.get run = some phase)
    (hphase : phase.isAppended = false) (hother : w.runs.get other = some phase')
    (hphase' : phase'.isAppended = true) : other ≠ run := by
  rintro rfl
  obtain rfl := Option.some.inj (hrun.symm.trans hother)
  cases hphase.symm.trans hphase'

section Ends

variable {run : Nat} {phase : Phase} (h : Ingest jsonParse instanceUuid w k)
  (hrun : w.runs.get run = some phase) (hphase : phase.isAppended = false)

include h hrun hphase

theorem Ingest.resolveRun {size : Nat} (hcovers : w.Covers size w.offset) :
    Ingest jsonParse instanceUuid (w.resolveRun run size) k := by
  refine h.of_runs rfl rfl rfl ?_ ?_ ?_
  · intro found hfound
    rcases List.mem_cons.mp hfound with rfl | hold
    · exact .inr hcovers
    · exact .inl hold
  · exact fun other phase' hother => .inl (Arena.get_free_eq_some hother).2
  · intro other phase' hother hphase'
    have hne := ne_of_appended hrun hphase hother hphase'
    exact (Arena.get_free_of_ne hne).trans hother

/-- A run that has not appended fails. -/
theorem Ingest.endRun : Ingest jsonParse instanceUuid (w.endRun run) k := by
  refine h.of_runs rfl rfl rfl (fun _ => .inl) ?_ ?_
  · exact fun other phase' hother => .inl (Arena.get_free_eq_some hother).2
  · intro other phase' hother hphase'
    have hne := ne_of_appended hrun hphase hother hphase'
    exact (Arena.get_free_of_ne hne).trans hother

/-- A run that has not appended goes on to another phase before its appends. -/
theorem Ingest.setPhase {next : Phase} (hseen : next.seen = none) (hfits : next.Fits w.file) :
    Ingest jsonParse instanceUuid (w.setPhase run next) k := by
  refine h.of_runs rfl rfl rfl (fun _ => .inl) ?_ ?_
  · intro other phase' hother
    obtain ⟨old, hold, ⟨-, rfl⟩ | ⟨-, rfl⟩⟩ := Arena.get_modify_eq_some hother
    · exact .inr ⟨hseen, hfits⟩
    · exact .inl hold
  · intro other phase' hother hphase'
    have hne := ne_of_appended hrun hphase hother hphase'
    exact (Arena.get_modify _ _ _ _).trans ((if_neg hne).trans hother)

end Ends

theorem Ingest.startRun (h : Ingest jsonParse instanceUuid w k) (input : SessionState) :
    Ingest jsonParse instanceUuid (w.startRun input) k := by
  refine h.of_runs rfl rfl rfl (fun _ => .inl) ?_ ?_
  · intro run phase hrun
    rcases Arena.get_alloc_eq_some hrun with ⟨-, rfl⟩ | hold
    · exact .inr ⟨rfl, trivial⟩
    · exact .inl hold
  · exact fun run phase hrun _ => Arena.get_alloc_of_get hrun

/-! ## Appending -/

theorem fileEvents_append {lines : Bytes} (h : completeLines 10 lines = lines) (rest : Bytes) :
    fileEvents jsonParse instanceUuid (lines ++ rest) =
      fileEvents jsonParse instanceUuid lines ++ fileEvents jsonParse instanceUuid rest := by
  have htext : completeLines '\n' (decodeUtf8 lines) = decodeUtf8 lines := by
    rw [completeLines_decodeUtf8, h]
  rw [fileEvents, decodeUtf8_of_completeLines h, textEvents,
    keepLines_of_completeLines lineEvent_nil htext, List.map_append]
  rfl

/-- The bytes of a run that starts behind the lines of the store. -/
theorem take_append_newBytes {file : Bytes} {state : SessionState} {size : Nat}
    (hle : state.tailOffset ≤ size) :
    file.take state.tailOffset ++ newBytes file state size = file.take size := by
  have hsum : state.tailOffset + (size - state.tailOffset) = size := by omega
  rw [newBytes, ← List.take_add, hsum]

/-- Bytes at the front of the new ones. -/
theorem take_add_of_prefix {file lines : Bytes} {state : SessionState} {size : Nat}
    (h : lines <+: newBytes file state size) :
    file.take (state.tailOffset + lines.length) = file.take state.tailOffset ++ lines := by
  have hdrop : lines <+: file.drop state.tailOffset := h.trans (List.take_prefix _ _)
  rw [List.take_add, ← List.prefix_iff_eq_take.mp hdrop]

/-- The only run that has appended and not written is behind the lines that it has found. -/
theorem Ingest.appended (h : Ingest jsonParse instanceUuid w k) (hsettled : w.Settled) {run size : Nat}
    {phase : Phase} (hrun : w.runs.get run = some phase) {lines : Bytes} (hsize : size ≤ w.file.length)
    (hfound : completeLines 10 (w.file.take size) = w.file.take k ++ lines)
    (htake : w.file.take (k + lines.length) = w.file.take k ++ lines)
    {store : SessionEventsStore} {next : SessionState} {ingested : Nat}
    (hrows : store.rows =
      numbered 0 (fileEvents jsonParse instanceUuid (w.file.take (k + lines.length))))
    (hnext : next.tailOffset = k + lines.length)
    (hnone : ingested = 0 → fileEvents jsonParse instanceUuid lines = []) :
    Ingest jsonParse instanceUuid { w.setPhase run (.appended next size ingested) with store }
      (k + lines.length) := by
  have hoffset : w.offset = k := h.settled hsettled
  have hlength : (w.file.take k ++ lines).length = k + lines.length := by
    rw [List.length_append, List.length_take_of_le h.within]
  -- no other run has appended, since all are settled
  have hold : ∀ other phase,
      (w.runs.modify run fun _ => .appended next size ingested).get other = some phase →
        (w.runs.get other = some phase ∧ phase.isAppended = false) ∨
          other = run ∧ phase = .appended next size ingested := by
    intro other phase hother
    obtain ⟨old, hget, ⟨rfl, rfl⟩ | ⟨-, rfl⟩⟩ := Arena.get_modify_eq_some hother
    · exact .inr ⟨rfl, rfl⟩
    · exact .inl ⟨hget, hsettled other phase hget⟩
  refine ⟨⟨?_, ?_, hrows, ?_⟩, ?_, h.offset_lines, ?_, ?_, ?_, ?_, ?_, h.observed⟩
  · have hfull := congrArg List.length htake
    rw [hlength, List.length_take] at hfull
    exact min_eq_left_iff.mp hfull
  · exact (congrArg (completeLines 10) htake).trans (by
      rw [← hfound, completeLines_completeLines, hfound]
      exact htake.symm)
  · intro other phase found hother hseen
    rcases hold other phase hother with ⟨hget, -⟩ | ⟨-, rfl⟩
    · exact (h.seen other phase found hget hseen).trans (Nat.le_add_right _ _)
    · obtain rfl := Option.some.inj hseen
      exact (congrArg List.length hfound).le.trans hlength.le
  · exact hoffset.le.trans (Nat.le_add_right _ _)
  · intro other phase hother
    rcases hold other phase hother with ⟨hget, -⟩ | ⟨-, rfl⟩
    · exact h.fits other phase hget
    · exact hsize
  · intro other next' size' ingested' hother
    rcases hold other _ hother with ⟨-, hphase⟩ | ⟨-, hsame⟩
    · cases hphase
    · obtain ⟨rfl, rfl, rfl⟩ := Phase.appended.inj hsame
      refine ⟨hnext, fun hzero => ?_⟩
      have hsplit : fileEvents jsonParse instanceUuid (w.file.take (k + lines.length)) =
          fileEvents jsonParse instanceUuid (w.file.take k) := by
        rw [htake, fileEvents_append h.complete, hnone hzero, List.append_nil]
      exact (congrArg (fun n => fileEvents jsonParse instanceUuid (w.file.take n)) hoffset).trans
        hsplit.symm
  · intro run₁ run₂ phase₁ phase₂ hrun₁ hrun₂ hphase₁ hphase₂
    rcases hold run₁ phase₁ hrun₁ with ⟨-, hnot⟩ | ⟨rfl, -⟩
    · cases hnot.symm.trans hphase₁
    · rcases hold run₂ phase₂ hrun₂ with ⟨-, hnot⟩ | ⟨rfl, -⟩
      · cases hnot.symm.trans hphase₂
      · rfl
  -- this run has yet to write
  · intro hnow
    have happended : (w.runs.modify run fun _ => .appended next size ingested).get run =
        some (.appended next size ingested) := by
      rw [Arena.get_modify_self, hrun, Option.map_some]
    cases hnow run _ happended
  · intro other phase found hother hseen hphase
    rcases hold other phase hother with ⟨hget, -⟩ | ⟨-, rfl⟩
    · exact h.written other phase found hget hseen hphase
    · cases hphase

theorem Ingest.appendEvents (h : Ingest jsonParse instanceUuid w k) {run size : Nat}
    {state : SessionState} {bytes : Bytes} (hrun : w.runs.get run = some (.loaded state size bytes))
    (hstate : state.tailOffset = w.offset) (hsettled : w.Settled) (hsame : SameLength bytes)
    (now : Int) : ∃ k', Ingest jsonParse instanceUuid
      (w.appendEvents (claudeCode jsonParse instanceUuid) run state size bytes now) k' := by
  obtain ⟨hbefore, hsize, hbytes⟩ : state.tailOffset < size ∧ size ≤ w.file.length ∧
      bytes = newBytes w.file state size := h.fits run _ hrun
  have hk : state.tailOffset = k := hstate.trans (h.settled hsettled)
  have htext : completeLines '\n' (decodeUtf8 bytes) = decodeUtf8 (completeLines 10 bytes) :=
    completeLines_decodeUtf8 bytes
  have hfound : completeLines 10 (w.file.take size) = w.file.take k ++ completeLines 10 bytes := by
    rw [← take_append_newBytes hbefore.le, hk, completeLines_append_of_completeLines h.complete,
      ← hbytes]
  unfold SessionWatcher.appendEvents
  dsimp only
  split
  case isTrue hnone =>
    -- without a complete line the run ends where the offset is
    have hempty : completeLines 10 bytes = [] := by
      rw [SameLength, ← htext, hnone] at hsame
      exact List.length_eq_zero_iff.mp hsame.symm
    refine ⟨k, h.resolveRun hrun rfl ⟨hsize, ?_⟩⟩
    rw [hfound, hempty, List.append_nil, h.settled hsettled]
    exact (List.length_take_le _ _)
  case isFalse =>
    refine ⟨k + (completeLines 10 bytes).length, ?_⟩
    -- the new lines lie behind those of the store
    have htake : w.file.take (k + (completeLines 10 bytes).length) =
        w.file.take k ++ completeLines 10 bytes := by
      have hlines : completeLines 10 bytes <+: newBytes w.file state size := by
        rw [← hbytes]
        exact completeLines_prefix
      rw [← hk]
      exact take_add_of_prefix hlines
    -- their events are numbered after the rows
    have hparsed : w.parsed (claudeCode jsonParse instanceUuid)
        (completeLines '\n' (decodeUtf8 bytes)) =
          numbered (fileEvents jsonParse instanceUuid (w.file.take k)).length
            (textEvents jsonParse (decodeUtf8 (completeLines 10 bytes))) := by
      rw [SessionWatcher.parsed, claudeCode, latestSeq_of_numbered h.rows, htext]
      exact parseClaudeCodeBuffer_eq _ _
    obtain ⟨hrows, hcount⟩ : _ ∧ _ := appendAll_numbered h.rows
      (textEvents jsonParse (decodeUtf8 (completeLines 10 bytes)))
    refine h.appended hsettled hrun hsize hfound htake ?_ ?_ ?_
    · rw [hparsed, htake, fileEvents_append h.complete]
      exact hrows
    -- the offset is advanced by the bytes of the decoded text
    · rw [hk, htext]
      exact congrArg (k + ·) hsame
    · intro hzero
      rw [hparsed] at hzero
      have hnone := List.length_eq_zero_iff.mp (hcount.symm.trans hzero)
      rw [fileEvents, hnone, List.map_nil]

/-! ## Writing, ending and growing -/

/-- What was appended is written. -/
theorem Ingest.write (h : Ingest jsonParse instanceUuid w k) {run size ingested : Nat}
    {next : SessionState} (hrun : w.runs.get run = some (.appended next size ingested)) :
    Ingest jsonParse instanceUuid
      { w.setPhase run (.written next size ingested) with persisted := some next } k := by
  have hnext : next.tailOffset = k := (h.pending run next size ingested hrun).1
  have hold : ∀ other phase,
      (w.runs.modify run fun _ => .written next size ingested).get other = some phase →
        phase.isAppended = false ∧
          ((other = run ∧ phase = .written next size ingested) ∨ w.runs.get other = some phase) := by
    intro other phase hother
    obtain ⟨old, hget, ⟨rfl, rfl⟩ | ⟨hne, rfl⟩⟩ := Arena.get_modify_eq_some hother
    · exact ⟨rfl, .inl ⟨rfl, rfl⟩⟩
    · refine ⟨?_, .inr hget⟩
      -- Another run cannot have appended.
      cases hphase : phase.isAppended with
      | false => rfl
      | true => exact absurd (h.single other run phase _ hget hrun hphase rfl) hne
  have hseen : ∀ other phase found,
      (w.runs.modify run fun _ => .written next size ingested).get other = some phase →
        phase.seen = some found → (completeLines 10 (w.file.take found)).length ≤ k := by
    intro other phase found hother hfound
    rcases (hold other phase hother).2 with ⟨-, rfl⟩ | hget
    · exact h.seen run _ found hrun hfound
    · exact h.seen other phase found hget hfound
  refine ⟨⟨h.within, h.complete, h.rows, hseen⟩, hnext.le, ?_, ?_, ?_, ?_, fun _ => hnext, ?_, ?_⟩
  · exact (congrArg (fun n => completeLines 10 (w.file.take n)) hnext).trans
      (h.complete.trans (congrArg w.file.take hnext.symm))
  · intro other phase hother
    rcases (hold other phase hother).2 with ⟨-, rfl⟩ | hget
    · exact (h.fits run _ hrun : size ≤ w.file.length)
    · exact h.fits other phase hget
  · intro other next' size' ingested' hother
    cases (hold other _ hother).1
  · intro run₁ run₂ phase₁ phase₂ hrun₁ _ hphase₁ _
    cases (hold run₁ phase₁ hrun₁).1.symm.trans hphase₁
  · intro other phase found hother hfound _
    exact (hseen other phase found hother hfound).trans hnext.ge
  · intro found hfound
    obtain ⟨hle, hlines⟩ := h.observed found hfound
    exact ⟨hle, hlines.trans (h.offset_le.trans hnext.ge)⟩

/-- What has been read stays when the file grows. -/
theorem Phase.Fits.grow {file : Bytes} {phase : Phase} (h : phase.Fits file) (bytes : Bytes) :
    phase.Fits (file ++ bytes) := by
  have hlength : file.length ≤ (file ++ bytes).length := by
    rw [List.length_append]
    exact Nat.le_add_right _ _
  cases phase with
  | started | ready => trivial
  | sized state size => exact ⟨h.1, h.2.trans hlength⟩
  | loaded state size content =>
      obtain ⟨hbefore, hsize, rfl⟩ := h
      refine ⟨hbefore, hsize.trans hlength, ?_⟩
      -- what is read ends before the new bytes
      have hdrop : size - state.tailOffset ≤ (file.drop state.tailOffset).length := by
        rw [List.length_drop]
        omega
      rw [newBytes, newBytes, List.drop_append_of_le_length (hbefore.le.trans hsize),
        List.take_append_of_le_length hdrop]
  | appended next size ingested => exact h.trans hlength
  | written next size ingested => exact h.trans hlength

theorem Phase.size_le_of_fits {file : Bytes} {phase : Phase} (h : phase.Fits file) {size : Nat}
    (hseen : phase.seen = some size) : size ≤ file.length := by
  cases phase with
  | appended next found ingested => exact Option.some.inj hseen ▸ h
  | written next found ingested => exact Option.some.inj hseen ▸ h
  | _ => cases hseen

theorem Ingest.grow (h : Ingest jsonParse instanceUuid w k) (bytes : Bytes) :
    Ingest jsonParse instanceUuid { w with file := w.file ++ bytes } k := by
  -- bytes at the end do not change what was read
  have htake : ∀ n, n ≤ w.file.length → (w.file ++ bytes).take n = w.file.take n := fun n hn =>
    List.take_append_of_le_length hn
  have hk := htake k h.within
  have hoffset := htake w.offset (h.offset_le.trans h.within)
  refine ⟨⟨?_, ?_, ?_, ?_⟩, h.offset_le, ?_, ?_, ?_, h.single, h.settled, ?_, ?_⟩
  · exact h.within.trans (by rw [List.length_append]; exact Nat.le_add_right _ _)
  · exact hk ▸ h.complete
  · exact hk ▸ h.rows
  · intro run phase size hrun hseen
    rw [htake size (Phase.size_le_of_fits (h.fits run phase hrun) hseen)]
    exact h.seen run phase size hrun hseen
  · exact hoffset ▸ h.offset_lines
  · exact fun run phase hrun => (h.fits run phase hrun).grow bytes
  · intro run next size ingested hrun
    obtain ⟨hnext, hnone⟩ := h.pending run next size ingested hrun
    refine ⟨hnext, fun hzero => ?_⟩
    have hsame := hnone hzero
    rw [← hk, ← hoffset] at hsame
    exact hsame
  · intro run phase size hrun hseen hphase
    rw [htake size (Phase.size_le_of_fits (h.fits run phase hrun) hseen)]
    exact h.written run phase size hrun hseen hphase
  · intro size hsize
    obtain ⟨hle, hlines⟩ := h.observed size hsize
    refine ⟨hle.trans (by rw [List.length_append]; exact Nat.le_add_right _ _), ?_⟩
    rw [htake size hle]
    exact hlines

/-! ## Every step -/

def sampleState : SessionState := ⟨0, 0, 1⟩

end ThinkLocal.Sessions
