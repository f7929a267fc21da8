import ThinkLocal.Foundation.LastMatch
import ThinkLocal.Foundation.Machine
import ThinkLocal.Foundation.SharedFiles

/-!
# Atomic writes

`writeAtomic` of `atomic-write.ts`, called any number of times at once.  A call writes a temporary
file of its own name, which it creates exclusively, and renames it.  It can fail at every step, and
its process can die.
-/

namespace ThinkLocal.Sessions

open Foundation

/-- A path as `dirname` and `basename` split it. -/
structure FilePath where
  dir : String
  base : String
deriving DecidableEq

/-- A call, with the `randomUUID()` that it draws. -/
structure AtomicWrite where
  path : FilePath
  content : List UInt8
  uuid : String

/-- `join(dir, .<base>.tmp-<uuid>)`. -/
def AtomicWrite.tmp (call : AtomicWrite) : FilePath where
  dir := call.path.dir
  base := "." ++ call.path.base ++ ".tmp-" ++ call.uuid

/-- What a call does next. -/
inductive WriteStage
  | opening
  /-- `fh.writeFile(content)` with what it has left to write. -/
  | writing (file position : ℕ) (rest : List UInt8)
  | syncing
  /-- `unlink(tmp)` in one of the `catch` blocks. -/
  | cleaning
  | closing
  | replacing
  | resolved
  | rejected
  | crashed
deriving DecidableEq

/-- What happens at the next step of a call. -/
inductive StepEvent
  | proceeds
  | throws
  | writes (count : ℕ)
  | dies

abbrev Disk := Directory FilePath UInt8

def WriteStage.advance (call : AtomicWrite) (disk : Disk) :
    WriteStage → StepEvent → Option (Disk × WriteStage)
  | resolved, _ | rejected, _ | crashed, _ => none
  | _, .dies => some (disk, crashed)
  | opening, .proceeds =>
      match disk.openExclusive call.tmp with
      | some (file, opened) => some (opened, writing file 0 call.content)
      | none => some (disk, cleaning)
  | writing file position rest, .writes count =>
      if count ≤ rest.length then
        some (disk.write 0 file position (rest.take count),
          writing file (position + count) (rest.drop count))
      else none
  | writing _ _ [], .proceeds => some (disk, syncing)
  | syncing, .proceeds => some (disk, closing)
  | opening, .throws | writing _ _ _, .throws | syncing, .throws => some (disk, cleaning)
  | closing, .proceeds => some (disk, replacing)
  -- an error of the `close` behind the `try` is not cleaned up
  | closing, .throws => some (disk, rejected)
  | replacing, .proceeds =>
      match disk.rename call.tmp call.path with
      | some renamed => some (renamed, resolved)
      | none => some (disk, cleaning)
  | replacing, .throws => some (disk, cleaning)
  | cleaning, .proceeds => some ((disk.unlink call.tmp).getD disk, rejected)
  | cleaning, .throws => some (disk, rejected)
  | _, _ => none

/-- The disk, where every call is, and the calls in the order in which they have renamed. -/
structure Writing (W : Type) where
  disk : Disk
  stage : W → WriteStage
  log : List W

variable {W : Type} [DecidableEq W]

def atomicWrites (calls : W → AtomicWrite) (start : Disk) :
    Machine (Writing W) (W × StepEvent) where
  init := ⟨start, fun _ => .opening, []⟩
  step s a :=
    ((s.stage a.1).advance (calls a.1) s.disk a.2).map fun (disk, stage) =>
      { disk := disk
        stage := Function.update s.stage a.1 stage
        log := if stage = .resolved then s.log ++ [a.1] else s.log }

/-! ## Temporary names -/

theorem length_tmp (call : AtomicWrite) :
    call.tmp.base.length = call.path.base.length + call.uuid.length + 6 := by
  simp only [AtomicWrite.tmp, String.length_append]
  have hdot : ".".length = 1 := by decide
  have htmp : ".tmp-".length = 5 := by decide
  omega

theorem tmp_ne_path (call : AtomicWrite) : call.path ≠ call.tmp := by
  intro h
  have hlength := length_tmp call
  rw [← congrArg FilePath.base h] at hlength
  omega

/-- Names with different ends of one length are different. -/
theorem uuid_eq_of_tmp_eq {call other : AtomicWrite} (hlength : call.uuid.length = other.uuid.length)
    (h : call.tmp = other.tmp) : call.uuid = other.uuid := by
  have hbase := congrArg (fun path => path.base.toList) h
  simp only [AtomicWrite.tmp, String.toList_append] at hbase
  rw [← String.length_toList, ← String.length_toList] at hlength
  exact String.toList_injective (List.append_inj' hbase hlength).2

/-- The drawn names are of one length and differ, and nobody writes to a temporary name. -/
structure Fresh (calls : W → AtomicWrite) : Prop where
  length : ∀ w, (calls w).uuid.length = 36
  differ : ∀ {v w}, (calls v).uuid = (calls w).uuid → v = w
  targets : ∀ v w, (calls v).path ≠ (calls w).tmp

omit [DecidableEq W] in
theorem Fresh.tmp_ne {calls : W → AtomicWrite} (hfresh : Fresh calls) {v w : W} (h : v ≠ w) :
    (calls v).tmp ≠ (calls w).tmp := by
  intro htmp
  have hlength := (hfresh.length v).trans (hfresh.length w).symm
  exact h (hfresh.differ (uuid_eq_of_tmp_eq hlength htmp))

/-! ## One step of a call -/

section Step

variable (call : AtomicWrite)

def WriteStage.Holds (disk : Disk) : WriteStage → Prop
  | writing file position rest => disk.entry call.tmp = some file ∧
      ∃ done, disk.content call.tmp = some done ∧ done.length = position ∧ done ++ rest = call.content
  | syncing | closing | replacing => disk.content call.tmp = some call.content
  | resolved => disk.entry call.tmp = none
  | opening | cleaning | rejected | crashed => True

/-- What a step does to the disk, besides the temporary file. -/
structure Effect (disk disk' : Disk) (stage' : WriteStage) : Prop where
  holds : stage'.Holds call disk'
  content : ∀ path ≠ call.tmp, disk'.content path =
    if stage' = .resolved ∧ path = call.path then some call.content else disk.content path
  entry : ∀ path ≠ call.tmp, path ≠ call.path → disk'.entry path = disk.entry path

variable {call} {disk disk' : Disk} {stage stage' : WriteStage} {event : StepEvent}

theorem Effect.same (hholds : stage'.Holds call disk) (hstage : stage' ≠ .resolved) :
    Effect call disk disk stage' where
  holds := hholds
  content _ _ := (if_neg fun h => hstage h.1).symm
  entry _ _ _ := rfl

theorem Effect.of_tmp (hholds : stage'.Holds call disk') (hstage : stage' ≠ .resolved)
    (hcontent : ∀ path ≠ call.tmp, disk'.content path = disk.content path)
    (hentry : ∀ path ≠ call.tmp, disk'.entry path = disk.entry path) :
    Effect call disk disk' stage' where
  holds := hholds
  content path hpath := (hcontent path hpath).trans (if_neg fun h => hstage h.1).symm
  entry path hpath _ := hentry path hpath

theorem effect_opening
    (h : WriteStage.opening.advance call disk .proceeds = some (disk', stage')) :
    Effect call disk disk' stage' := by
  simp only [WriteStage.advance] at h
  split at h
  · next file opened hopen =>
      obtain ⟨-, rfl, rfl⟩ := Directory.openExclusive_eq_some hopen
      obtain ⟨rfl, rfl⟩ := Prod.mk.inj (Option.some.inj h)
      have hfile : (disk.create call.tmp).entry call.tmp = some disk.files.next := if_pos rfl
      have hempty : (disk.create call.tmp).content call.tmp = some [] :=
        Directory.content_create.trans (if_pos rfl)
      exact .of_tmp ⟨hfile, [], hempty, rfl, rfl⟩ nofun
        (fun path hpath => Directory.content_create.trans (if_neg hpath))
        (fun path hpath => if_neg hpath)
  · obtain ⟨rfl, rfl⟩ := Prod.mk.inj (Option.some.inj h)
    exact .same trivial nofun

theorem effect_writing {file position count : ℕ} {rest : List UInt8}
    (hholds : (WriteStage.writing file position rest).Holds call disk)
    (h : (WriteStage.writing file position rest).advance call disk (.writes count) =
      some (disk', stage')) :
    Effect call disk disk' stage' := by
  obtain ⟨hfile, done, hdone, rfl, hcopy⟩ := hholds
  simp only [WriteStage.advance] at h
  split at h
  · next hcount =>
      obtain ⟨rfl, rfl⟩ := Prod.mk.inj (Option.some.inj h)
      have hcontent : ∀ path, (disk.write 0 file done.length (rest.take count)).content path =
          if path = call.tmp then some (done ++ rest.take count) else disk.content path :=
        fun path => Directory.content_write hfile hdone
      have hlength : (done ++ rest.take count).length = done.length + count := by
        rw [List.length_append, List.length_take_of_le hcount]
      have hrest : done ++ rest.take count ++ rest.drop count = call.content := by
        rw [List.append_assoc, List.take_append_drop, hcopy]
      exact .of_tmp ⟨hfile, _, (hcontent call.tmp).trans (if_pos rfl), hlength, hrest⟩ nofun
        (fun path hpath => (hcontent path).trans (if_neg hpath)) (fun _ _ => rfl)
  · cases h

theorem effect_replacing (hholds : WriteStage.replacing.Holds call disk)
    (h : WriteStage.replacing.advance call disk .proceeds = some (disk', stage')) :
    Effect call disk disk' stage' := by
  simp only [WriteStage.advance] at h
  split at h
  · next renamed hrename =>
      obtain ⟨rfl, rfl⟩ := Prod.mk.inj (Option.some.inj h)
      obtain rfl := Directory.rename_eq_some hrename
      have hne := (tmp_ne_path call).symm
      exact {
        holds := (if_neg hne).trans (if_pos rfl)
        content := by
          intro path hpath
          rw [Directory.content_move]
          by_cases htarget : path = call.path
          · rw [if_pos htarget, if_pos ⟨rfl, htarget⟩]
            exact hholds
          · rw [if_neg htarget, if_neg hpath, if_neg fun h => htarget h.2]
        entry := fun path hpath htarget => (if_neg htarget).trans (if_neg hpath) }
  · obtain ⟨rfl, rfl⟩ := Prod.mk.inj (Option.some.inj h)
    exact .same trivial nofun

theorem effect_cleaning
    (h : WriteStage.cleaning.advance call disk .proceeds = some (disk', stage')) :
    Effect call disk disk' stage' := by
  obtain ⟨rfl, rfl⟩ := Prod.mk.inj (Option.some.inj h)
  have hunlink : (disk.unlink call.tmp).getD disk = disk.remove call.tmp ∨ _ := Directory.getD_unlink
  rcases hunlink with heq | heq
  · rw [heq]
    exact .of_tmp trivial nofun (fun path hpath => Directory.content_remove.trans (if_neg hpath))
      (fun path hpath => if_neg hpath)
  · rw [heq]
    exact .same trivial nofun

theorem effect_advance (hholds : stage.Holds call disk)
    (h : stage.advance call disk event = some (disk', stage')) : Effect call disk disk' stage' := by
  cases event with
  | proceeds =>
      cases stage with
      | opening => exact effect_opening h
      | writing file position rest =>
          cases rest with
          | nil =>
              obtain ⟨-, done, hdone, -, hcopy⟩ := hholds
              obtain ⟨rfl, rfl⟩ := Prod.mk.inj (Option.some.inj h)
              rw [List.append_nil] at hcopy
              exact .same (hdone.trans (congrArg some hcopy)) nofun
          | cons _ _ => cases h
      | syncing | closing =>
          obtain ⟨rfl, rfl⟩ := Prod.mk.inj (Option.some.inj h)
          exact .same hholds nofun
      | replacing => exact effect_replacing hholds h
      | cleaning => exact effect_cleaning h
      | _ => cases h
  | writes count =>
      cases stage with
      | writing file position rest => exact effect_writing hholds h
      | _ => cases h
  | throws | dies =>
      cases stage with
      | resolved | rejected | crashed => cases h
      | _ =>
          obtain ⟨rfl, rfl⟩ := Prod.mk.inj (Option.some.inj h)
          exact .same trivial nofun

/-- A call that has ended makes no step. -/
theorem ne_resolved_of_advance (h : stage.advance call disk event = some (disk', stage')) :
    stage ≠ .resolved := by
  rintro rfl
  cases h

end Step

/-! ## All calls -/

section System

variable {calls : W → AtomicWrite} {start : Disk} {s s' : Writing W} {a : W × StepEvent}

/-- The call that has last renamed its file to a path. -/
def lastWriter (calls : W → AtomicWrite) (log : List W) (path : FilePath) : Option W :=
  lastMatch (fun w => (calls w).path = path) log

/-- What the disk holds after the renames of a log. -/
def afterLog (calls : W → AtomicWrite) (start : Disk) (log : List W) (path : FilePath) :
    Option (List UInt8) :=
  match lastWriter calls log path with
  | some w => some (calls w).content
  | none => start.content path

structure Writing.Inv (calls : W → AtomicWrite) (start : Disk) (s : Writing W) : Prop where
  holds : ∀ w, (s.stage w).Holds (calls w) s.disk
  content : ∀ path, (∀ w, path ≠ (calls w).tmp) → s.disk.content path = afterLog calls start s.log path
  log : ∀ w, w ∈ s.log ↔ s.stage w = .resolved
  nodup : s.log.Nodup

omit [DecidableEq W] in
theorem afterLog_append (log : List W) (w : W) (path : FilePath) :
    afterLog calls start (log ++ [w]) path =
      if path = (calls w).path then some (calls w).content else afterLog calls start log path := by
  unfold afterLog lastWriter lastMatch
  rw [List.filter_append]
  by_cases h : path = (calls w).path
  · simp [h]
  · have hother : ¬ (calls w).path = path := fun heq => h heq.symm
    simp [h, hother]

omit [DecidableEq W] in
/-- Another call's step leaves what a call relies on. -/
theorem WriteStage.Holds.of_effect (hfresh : Fresh calls) {v w : W} (hvw : v ≠ w) {disk' : Disk}
    {stage stage' : WriteStage} (heffect : Effect (calls v) s.disk disk' stage')
    (h : stage.Holds (calls w) s.disk) : stage.Holds (calls w) disk' := by
  have hpath : (calls w).tmp ≠ (calls v).path := (hfresh.targets v w).symm
  have htmp := hfresh.tmp_ne hvw.symm
  have hcontent : disk'.content (calls w).tmp = s.disk.content (calls w).tmp :=
    (heffect.content _ htmp).trans (if_neg fun h => hpath h.2)
  have hentry := heffect.entry _ htmp hpath
  cases stage with
  | writing file position rest =>
      obtain ⟨hfile, done, hdone, hrest⟩ := h
      exact ⟨hentry.trans hfile, done, hcontent.trans hdone, hrest⟩
  | syncing | closing | replacing => exact hcontent.trans h
  | resolved => exact hentry.trans h
  | opening | cleaning | rejected | crashed => trivial

theorem Writing.inv_step (hfresh : Fresh calls) (hinv : s.Inv calls start)
    (h : (atomicWrites calls start).step s a = some s') : s'.Inv calls start := by
  obtain ⟨v, event⟩ := a
  obtain ⟨⟨disk, stage⟩, hadvance, rfl⟩ := Option.map_eq_some_iff.mp h
  have heffect := effect_advance (hinv.holds v) hadvance
  have hnew : v ∉ s.log := fun hv => ne_resolved_of_advance hadvance ((hinv.log v).mp hv)
  refine ⟨?_, ?_, ?_, ?_⟩
  · intro w
    dsimp only
    by_cases hvw : w = v
    · subst hvw
      simpa using heffect.holds
    · rw [Function.update_of_ne hvw]
      exact (hinv.holds w).of_effect hfresh (Ne.symm hvw) heffect
  · intro path hpath
    rw [heffect.content path (hpath v), hinv.content path hpath]
    by_cases hstage : stage = .resolved
    · simp [hstage, afterLog_append]
    · simp [hstage]
  · intro w
    dsimp only
    by_cases hvw : w = v
    · subst hvw
      by_cases hstage : stage = .resolved <;> simp [hstage, hnew]
    · rw [Function.update_of_ne hvw, ← hinv.log w]
      by_cases hstage : stage = .resolved <;> simp [hstage, hvw]
  · by_cases hstage : stage = .resolved
    · simp only [hstage, if_true]
      exact hinv.nodup.append (List.nodup_singleton v) (by simpa using hnew)
    · simpa only [hstage, if_false] using hinv.nodup

/-- The writes take place one after another, in the order of their renames: what stands at a path
is what the last of them had to write, complete. -/
theorem atomicWrites_in_order (hfresh : Fresh calls)
    (hs : (atomicWrites calls start).Reachable s) :
    (∀ path, (∀ w, path ≠ (calls w).tmp) →
        s.disk.content path = afterLog calls start s.log path) ∧
      s.log.Nodup ∧ (∀ w, w ∈ s.log ↔ s.stage w = .resolved) ∧
      ∀ w, s.stage w = .resolved → s.disk.content (calls w).tmp = none := by
  have hinv : s.Inv calls start := by
    refine hs.invariant ?_ fun s a s' hinv hstep => Writing.inv_step hfresh hinv hstep
    exact ⟨fun _ => trivial, fun _ _ => rfl, fun _ => by simp [atomicWrites], List.nodup_nil⟩
  refine ⟨hinv.content, hinv.nodup, hinv.log, fun w hw => ?_⟩
  have hgone := hinv.holds w
  rw [hw] at hgone
  exact s.disk.content_eq_none_iff.mpr hgone

end System

/-- Two calls for one path. -/
def historyWrites (w : Bool) : AtomicWrite where
  path := ⟨"/sessions", "HISTORY.md"⟩
  content := if w then [1, 2, 3] else [4]
  uuid := if w then "6f1c2a34-0000-4000-8000-000000000001" else "6f1c2a34-0000-4000-8000-000000000002"

theorem historyWrites_fresh : Fresh historyWrites where
  length := by decide
  differ := by decide
  targets := by decide

/-- The first call writes half of its text, the second one passes it. -/
def crossingRun : List (Bool × StepEvent) :=
  [(true, .proceeds), (true, .writes 2), (false, .proceeds), (false, .writes 1), (false, .proceeds),
    (false, .proceeds), (false, .proceeds), (false, .proceeds), (true, .writes 1), (true, .proceeds),
    (true, .proceeds), (true, .proceeds), (true, .proceeds)]

theorem atomicWrites_in_order_crossing :
    ∃ s, (atomicWrites historyWrites .empty).runFrom ⟨.empty, fun _ => .opening, []⟩ crossingRun =
        some s ∧ s.log = [false, true] ∧
      s.disk.content ⟨"/sessions", "HISTORY.md"⟩ =
        afterLog historyWrites .empty [false, true] ⟨"/sessions", "HISTORY.md"⟩ := by
  have hsome : ((atomicWrites historyWrites .empty).runFrom ⟨.empty, fun _ => .opening, []⟩
      crossingRun).map Writing.log = some [false, true] := by decide +kernel
  obtain ⟨s, hs, hlog⟩ := Option.map_eq_some_iff.mp hsome
  have horder := atomicWrites_in_order historyWrites_fresh (Machine.reachable_of_runFrom hs)
  refine ⟨s, hs, hlog, ?_⟩
  rw [← hlog]
  exact horder.1 _ (by decide)

end ThinkLocal.Sessions
