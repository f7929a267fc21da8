import ThinkLocal.Foundation.Machine
import ThinkLocal.Foundation.SharedFiles

/-!
# The key of a node

`loadOrCreateLibp2pPrivateKey` of `libp2p-identity.ts`, called any number of times on one directory.
A call reads the key that is there, or makes one behind a lock that is created exclusively and is
never stolen.  It can fail at every step, and its process can die.
-/

namespace ThinkLocal.Mesh.Libp2p

open Foundation

/-- What `libp2p-identity.ts` takes from `@libp2p/crypto` and `@libp2p/peer-id`. -/
structure KeyCodec where
  PrivateKey : Type
  type : PrivateKey → String
  /-- `none` where `privateKeyFromProtobuf` throws. -/
  privateKeyFromProtobuf : List UInt8 → Option PrivateKey
  privateKeyToProtobuf : PrivateKey → List UInt8
  /-- `peerIdFromPrivateKey(key).toString()`. -/
  libp2pPeerIdString : PrivateKey → String

/-- A key that was written can be read. -/
def KeyCodec.Lawful (codec : KeyCodec) : Prop :=
  ∀ key, codec.type key = "Ed25519" →
    codec.privateKeyFromProtobuf (codec.privateKeyToProtobuf key) = some key

/-- The files of the directory `keys`. -/
inductive KeyFile
  /-- `libp2p-ed25519.key`. -/
  | key
  /-- `libp2p-ed25519.key.lock`. -/
  | lock
  /-- `libp2p-ed25519.key.<pid>.tmp`. -/
  | tmp (pid : ℕ)
deriving DecidableEq

abbrev KeyDir := Directory KeyFile UInt8

variable (codec : KeyCodec)

structure LoadedLibp2pKey where
  privateKey : codec.PrivateKey
  generated : Bool
  peerId : String

inductive KeyError
  /-- A call to the file system throws. -/
  | io
  /-- The lock is taken, and no key appears. -/
  | busy
  /-- The file of the key cannot be read, or it holds no Ed25519 key. -/
  | invalid
deriving DecidableEq

abbrev LoadResult := Except KeyError (LoadedLibp2pKey codec)

/-- The key of a file, as `loadExistingKey` tests it. -/
def KeyCodec.load (bytes : List UInt8) : Option codec.PrivateKey :=
  (codec.privateKeyFromProtobuf bytes).filter fun key => codec.type key = "Ed25519"

/-- `loadExistingKey` where the file can be opened. -/
def loadExistingKey (bytes : List UInt8) : LoadResult codec :=
  match codec.load bytes with
  | none => .error .invalid
  | some key => .ok ⟨key, false, codec.libp2pPeerIdString key⟩

def maxWaitMs : ℕ := 30000

def stepMs : ℕ := 100

/-- What the holder of the lock does next. -/
inductive Work
  /-- `existsSync(keyPath)`. -/
  | rechecking
  | reading
  | generating
  /-- `openSync(tmp, 'w')`. -/
  | opening (key : codec.PrivateKey)
  /-- `writeSync` with what it has left to write. -/
  | writing (file off : ℕ) (rest : List UInt8) (key : codec.PrivateKey)
  | syncing (key : codec.PrivateKey)
  | closing (key : codec.PrivateKey)
  | installing (key : codec.PrivateKey)
  /-- `unlinkSync(tmp)` after an error. -/
  | cleaning
  /-- `finally`. -/
  | releasing (result : LoadResult codec)

inductive Phase
  /-- `existsSync(keyPath)`. -/
  | checking
  | loading
  /-- `openSync(lockPath, 'wx')`. -/
  | creating (waited : ℕ)
  /-- `existsSync(keyPath)` where the lock is taken. -/
  | looking (waited : ℕ)
  | sleeping (waited : ℕ)
  | holding (lock : ℕ) (work : Work codec)
  | settled (result : LoadResult codec)
  | crashed

/-- What happens at the next step of a call. -/
inductive KeyEvent
  | proceeds
  | throws
  /-- The key that `generateKeyPair('Ed25519')` draws. -/
  | generates (key : codec.PrivateKey)
  /-- How much a call of `writeSync` has written. -/
  | writes (count : ℕ)
  | dies

variable {codec}

def Work.advance (pid : ℕ) (dir : KeyDir) : Work codec → KeyEvent codec → Option (KeyDir × Work codec)
  | rechecking, .proceeds =>
      some (dir, if dir.entry .key = none then generating else reading)
  | reading, .proceeds =>
      some (dir, releasing (((dir.content .key).map (loadExistingKey codec)).getD (.error .io)))
  | generating, .generates key =>
      if codec.type key = "Ed25519" then some (dir, opening key) else none
  | opening key, .proceeds =>
      let (file, opened) := dir.openTruncated (.tmp pid)
      some (opened, writing file 0 (codec.privateKeyToProtobuf key) key)
  | writing file off rest key, .writes count =>
      if count ≤ rest.length then
        some (dir.write 0 file off (rest.take count),
          writing file (off + count) (rest.drop count) key)
      else none
  | writing _ _ [] key, .proceeds => some (dir, syncing key)
  | syncing key, .proceeds => some (dir, closing key)
  | closing key, .proceeds => some (dir, installing key)
  | installing key, .proceeds =>
      match dir.rename (.tmp pid) .key with
      | some renamed =>
          some (renamed, releasing (.ok ⟨key, true, codec.libp2pPeerIdString key⟩))
      | none => some (dir, cleaning)
  | installing _, .throws => some (dir, cleaning)
  | cleaning, .proceeds => some ((dir.unlink (.tmp pid)).getD dir, releasing (.error .io))
  -- the temporary file of an earlier error is left behind
  | reading, .throws | generating, .throws | opening _, .throws | writing _ _ _ _, .throws
  | syncing _, .throws | closing _, .throws | cleaning, .throws => some (dir, releasing (.error .io))
  | _, _ => none

def Phase.advance (pid : ℕ) (dir : KeyDir) :
    Phase codec → KeyEvent codec → Option (KeyDir × Phase codec)
  | settled _, _ | crashed, _ => none
  | _, .dies => some (dir, crashed)
  | checking, .proceeds => some (dir, if dir.entry .key = none then creating 0 else loading)
  | loading, .proceeds =>
      some (dir, settled (((dir.content .key).map (loadExistingKey codec)).getD (.error .io)))
  | loading, .throws => some (dir, settled (.error .io))
  | creating waited, .proceeds =>
      match dir.openExclusive .lock with
      | some (lock, locked) => some (locked, holding lock .rechecking)
      | none => some (dir, looking waited)
  | creating _, .throws => some (dir, settled (.error .io))
  | looking waited, .proceeds =>
      if dir.entry .key ≠ none then some (dir, loading)
      else if maxWaitMs ≤ waited then some (dir, settled (.error .busy))
      else some (dir, sleeping waited)
  | sleeping waited, .proceeds => some (dir, creating (waited + stepMs))
  -- errors of `closeSync` and `unlinkSync` are ignored
  | holding _ (.releasing result), .proceeds => some ((dir.unlink .lock).getD dir, settled result)
  | holding _ (.releasing result), .throws => some (dir, settled result)
  | holding lock work, event =>
      (work.advance pid dir event).map fun (dir', work') => (dir', holding lock work')
  | _, _ => none

/-- The directory and where every call is. -/
structure Starts (codec : KeyCodec) (P : Type) where
  dir : KeyDir
  phase : P → Phase codec

section Machine

variable {P : Type} [DecidableEq P]

/-- Calls of processes with their numbers, on a directory in which none of them has begun. -/
def keyStarts (codec : KeyCodec) (pid : P → ℕ) (start : KeyDir) :
    Machine (Starts codec P) (P × KeyEvent codec) where
  init := ⟨start, fun _ => .checking⟩
  step s a :=
    ((s.phase a.1).advance (pid a.1) s.dir a.2).map fun (dir, phase) =>
      ⟨dir, Function.update s.phase a.1 phase⟩

end Machine

/-! ## What a call relies on -/

section Calls

variable {pid : ℕ} {dir dir' : KeyDir}

/-- The file holds the key of a result. -/
structure LoadedLibp2pKey.InFile (dir : KeyDir) (loaded : LoadedLibp2pKey codec) : Prop where
  peerId : loaded.peerId = codec.libp2pPeerIdString loaded.privateKey
  file : ∃ bytes, dir.content .key = some bytes ∧ codec.load bytes = some loaded.privateKey

/-- What a result says about the file. -/
def ResultHolds (dir : KeyDir) : LoadResult codec → Prop
  | .ok loaded => loaded.InFile dir
  | .error .invalid => ∃ bytes, dir.content .key = some bytes ∧ codec.load bytes = none
  | .error _ => True

/-- The call has made the key that it returns. -/
def IsMade : LoadResult codec → Prop
  | .ok loaded => loaded.generated = true
  | .error _ => False

def Work.Made : Work codec → Prop
  | releasing result => IsMade result
  | _ => False

def Phase.Made : Phase codec → Prop
  | holding _ (.releasing result) | settled result => IsMade result
  | _ => False

/-- There is no file yet, and the key can be read again. -/
def IsNew (dir : KeyDir) (key : codec.PrivateKey) : Prop :=
  dir.content .key = none ∧ codec.type key = "Ed25519"

def Work.Holds (pid : ℕ) (dir : KeyDir) : Work codec → Prop
  | rechecking | reading | cleaning => True
  | generating => dir.content .key = none
  | opening key => IsNew dir key
  | writing file off rest key =>
      IsNew dir key ∧ dir.entry (.tmp pid) = some file ∧
        ∃ done, dir.content (.tmp pid) = some done ∧ done.length = off ∧
          done ++ rest = codec.privateKeyToProtobuf key
  | syncing key | closing key | installing key =>
      IsNew dir key ∧ dir.content (.tmp pid) = some (codec.privateKeyToProtobuf key)
  | releasing result => ResultHolds dir result

def Phase.Holds (pid : ℕ) (dir : KeyDir) : Phase codec → Prop
  | holding lock work => dir.entry .lock = some lock ∧ work.Holds pid dir
  | settled result => ResultHolds dir result
  | _ => True

variable (codec) in
/-- The file of the key stays as it is, or a complete one appears where there was none. -/
def KeyStays (dir dir' : KeyDir) : Prop :=
  dir'.content .key = dir.content .key ∨ dir.content .key = none ∧
    ∃ key, codec.type key = "Ed25519" ∧ dir'.content .key = some (codec.privateKeyToProtobuf key)

theorem KeyStays.content_eq (h : KeyStays codec dir dir') {bytes : List UInt8}
    (hbytes : dir.content .key = some bytes) : dir'.content .key = some bytes := by
  rcases h with hsame | ⟨hnone, -⟩
  · exact hsame.trans hbytes
  · rw [hnone] at hbytes
    cases hbytes

theorem ResultHolds.of_stays {result : LoadResult codec} (h : ResultHolds dir result)
    (hstays : KeyStays codec dir dir') : ResultHolds dir' result := by
  cases result with
  | ok loaded =>
      obtain ⟨hpeer, bytes, hbytes, hload⟩ := h
      exact ⟨hpeer, bytes, hstays.content_eq hbytes, hload⟩
  | error error =>
      cases error with
      | invalid =>
          obtain ⟨bytes, hbytes, hload⟩ := h
          exact ⟨bytes, hstays.content_eq hbytes, hload⟩
      | _ => trivial

variable (codec) in
/-- What reading the file returns. -/
def readResult (dir : KeyDir) : LoadResult codec :=
  ((dir.content .key).map (loadExistingKey codec)).getD (.error .io)

theorem readResult_holds : ResultHolds dir (readResult codec dir) := by
  unfold readResult
  cases hbytes : dir.content .key with
  | none => trivial
  | some bytes =>
      rw [Option.map_some, Option.getD_some, loadExistingKey]
      cases hload : codec.load bytes with
      | none => exact ⟨bytes, hbytes, hload⟩
      | some key => exact ⟨rfl, bytes, hbytes, hload⟩

theorem not_isMade_readResult : ¬ IsMade (readResult codec dir) := by
  unfold readResult
  cases dir.content .key with
  | none => exact id
  | some bytes =>
      rw [Option.map_some, Option.getD_some, loadExistingKey]
      cases codec.load bytes with
      | none => exact id
      | some key => exact Bool.false_ne_true

/-! ### The calls of a holder -/

/-- What one call of a holder keeps. -/
structure Work.Keeps (pid : ℕ) (dir dir' : KeyDir) (work' : Work codec) : Prop where
  work : work'.Holds pid dir'
  lock : dir'.entry .lock = dir.entry .lock
  key : KeyStays codec dir dir'
  /-- A key is made where there is none. -/
  made : work'.Made → dir.content .key = none

variable {work work' : Work codec}

theorem Work.Keeps.same (hwork : work'.Holds pid dir) (hmade : ¬ work'.Made) :
    Work.Keeps pid dir dir work' :=
  ⟨hwork, rfl, .inl rfl, fun h => absurd h hmade⟩

theorem Work.keeps_throws (h : work.advance pid dir .throws = some (dir', work')) :
    Work.Keeps pid dir dir' work' := by
  cases work with
  | rechecking => cases h
  | releasing result => cases h
  | _ =>
      obtain ⟨rfl, rfl⟩ := Prod.mk.inj (Option.some.inj h)
      exact .same trivial id

theorem Work.keeps_rechecking (h : rechecking.advance pid dir .proceeds = some (dir', work')) :
    Work.Keeps pid dir dir' work' := by
  obtain ⟨rfl, rfl⟩ := Prod.mk.inj (Option.some.inj h)
  split_ifs with hentry
  · exact .same (dir.content_eq_none_iff.mpr hentry) id
  · exact .same trivial id

theorem Work.keeps_opening {key : codec.PrivateKey} (hwork : (opening key).Holds pid dir)
    (h : (opening key).advance pid dir .proceeds = some (dir', work')) :
    Work.Keeps pid dir dir' work' := by
  obtain ⟨rfl, rfl⟩ := Prod.mk.inj (Option.some.inj h)
  have hkey : (dir.openTruncated (.tmp pid)).2.content .key = dir.content .key :=
    Directory.content_openTruncated.trans (if_neg (by simp))
  have hlock : (dir.openTruncated (.tmp pid)).2.entry .lock = dir.entry .lock :=
    Directory.entry_openTruncated.trans (if_neg (by simp))
  have hfile : (dir.openTruncated (.tmp pid)).2.entry (.tmp pid) =
      some (dir.openTruncated (.tmp pid)).1 := Directory.entry_openTruncated.trans (if_pos rfl)
  have hempty : (dir.openTruncated (.tmp pid)).2.content (.tmp pid) = some [] :=
    Directory.content_openTruncated.trans (if_pos rfl)
  exact ⟨⟨⟨hkey.trans hwork.1, hwork.2⟩, hfile, [], hempty, rfl, rfl⟩, hlock, .inl hkey, False.elim⟩

theorem Work.keeps_writes {file off count : ℕ} {rest : List UInt8} {key : codec.PrivateKey}
    (hwork : (writing file off rest key).Holds pid dir)
    (h : (writing file off rest key).advance pid dir (.writes count) = some (dir', work')) :
    Work.Keeps pid dir dir' work' := by
  obtain ⟨hnew, hfile, done, hdone, rfl, hsplit⟩ := hwork
  simp only [Work.advance] at h
  split at h
  · next hcount =>
      obtain ⟨rfl, rfl⟩ := Prod.mk.inj (Option.some.inj h)
      have hcontent : ∀ name, (dir.write 0 file done.length (rest.take count)).content name =
          if name = .tmp pid then some (done ++ rest.take count) else dir.content name :=
        fun name => Directory.content_write hfile hdone
      have hkey := (hcontent .key).trans (if_neg (by simp))
      have htmp := (hcontent (.tmp pid)).trans (if_pos rfl)
      have hlength : (done ++ rest.take count).length = done.length + count := by
        rw [List.length_append, List.length_take, min_eq_left hcount]
      have hrest : done ++ rest.take count ++ rest.drop count = codec.privateKeyToProtobuf key := by
        rw [List.append_assoc, List.take_append_drop, hsplit]
      exact ⟨⟨⟨hkey.trans hnew.1, hnew.2⟩, hfile, _, htmp, hlength, hrest⟩, rfl, .inl hkey,
        False.elim⟩
  · cases h

theorem Work.keeps_installing (hcodec : codec.Lawful) {key : codec.PrivateKey}
    (hwork : (installing key).Holds pid dir)
    (h : (installing key).advance pid dir .proceeds = some (dir', work')) :
    Work.Keeps pid dir dir' work' := by
  obtain ⟨hnew, htmp⟩ := hwork
  simp only [Work.advance] at h
  split at h
  · next renamed hrename =>
      obtain ⟨rfl, rfl⟩ := Prod.mk.inj (Option.some.inj h)
      obtain rfl := Directory.rename_eq_some hrename
      have hkey : (dir.move (.tmp pid) .key).content .key =
          some (codec.privateKeyToProtobuf key) := Directory.content_move.trans htmp
      have hload : codec.load (codec.privateKeyToProtobuf key) = some key := by
        rw [KeyCodec.load, hcodec key hnew.2]
        simp [hnew.2]
      have hlock : (dir.move (.tmp pid) .key).entry .lock = dir.entry .lock :=
        Directory.entry_move.trans (by simp)
      exact ⟨⟨rfl, _, hkey, hload⟩, hlock, .inr ⟨hnew.1, key, hnew.2, hkey⟩, fun _ => hnew.1⟩
  · obtain ⟨rfl, rfl⟩ := Prod.mk.inj (Option.some.inj h)
    exact .same trivial id

theorem Work.keeps_cleaning (h : cleaning.advance pid dir .proceeds = some (dir', work')) :
    Work.Keeps pid dir dir' work' := by
  obtain ⟨rfl, rfl⟩ := Prod.mk.inj (Option.some.inj h)
  have hunlink : (dir.unlink (.tmp pid)).getD dir = dir.remove (.tmp pid) ∨ _ :=
    Directory.getD_unlink
  rcases hunlink with heq | heq <;> rw [heq]
  · have hkey : (dir.remove (.tmp pid)).content .key = dir.content .key :=
      Directory.content_remove.trans (if_neg (by simp))
    have hlock : (dir.remove (.tmp pid)).entry .lock = dir.entry .lock :=
      Directory.entry_remove.trans (if_neg (by simp))
    exact ⟨trivial, hlock, .inl hkey, False.elim⟩
  · exact .same trivial id

/-- One call of a holder. -/
theorem Work.keeps_advance (hcodec : codec.Lawful) {event : KeyEvent codec}
    (hwork : work.Holds pid dir) (h : work.advance pid dir event = some (dir', work')) :
    Work.Keeps pid dir dir' work' := by
  cases event with
  | throws => exact keeps_throws h
  | dies => cases work <;> cases h
  | generates key =>
      cases work with
      | generating =>
          simp only [Work.advance] at h
          split at h
          · next htype =>
              obtain ⟨rfl, rfl⟩ := Prod.mk.inj (Option.some.inj h)
              exact .same ⟨hwork, htype⟩ id
          · cases h
      | _ => cases h
  | writes count =>
      cases work with
      | writing file off rest key => exact keeps_writes hwork h
      | _ => cases h
  | proceeds =>
      cases work with
      | rechecking => exact keeps_rechecking h
      | reading =>
          obtain ⟨rfl, rfl⟩ := Prod.mk.inj (Option.some.inj h)
          exact .same readResult_holds not_isMade_readResult
      | opening key => exact keeps_opening hwork h
      | writing file off rest key =>
          cases rest with
          | nil =>
              obtain ⟨rfl, rfl⟩ := Prod.mk.inj (Option.some.inj h)
              -- nothing is left to write, so the file has the whole key
              obtain ⟨hnew, -, done, hdone, -, hsplit⟩ := hwork
              rw [List.append_nil] at hsplit
              exact .same ⟨hnew, hsplit ▸ hdone⟩ id
          | cons _ _ => cases h
      -- neither of them changes what is in the files
      | syncing key | closing key =>
          obtain ⟨rfl, rfl⟩ := Prod.mk.inj (Option.some.inj h)
          exact .same hwork id
      | installing key => exact keeps_installing hcodec hwork h
      | cleaning => exact keeps_cleaning h
      | _ => cases h

/-! ### One call of a process -/

variable {phase phase' : Phase codec} {event : KeyEvent codec}

/-- A call without the lock that has not made a key. -/
def Phase.Idle (dir : KeyDir) : Phase codec → Prop
  | holding _ _ => False
  | settled result => ResultHolds dir result ∧ ¬ IsMade result
  | _ => True

/-- What a call can do. -/
inductive Phase.Step (pid : ℕ) (dir : KeyDir) (event : KeyEvent codec) :
    Phase codec → KeyDir → Phase codec → Prop
  | idles {phase phase' : Phase codec} (hidle : phase'.Idle dir) :
      Step pid dir event phase dir phase'
  | acquires {waited : ℕ} (hfree : dir.entry .lock = none) :
      Step pid dir event (.creating waited) (dir.create .lock)
        (.holding dir.files.next .rechecking)
  | releases {lock : ℕ} {result : LoadResult codec} {dir' : KeyDir}
      (hdir : dir' = dir.remove .lock ∨ dir' = dir) :
      Step pid dir event (.holding lock (.releasing result)) dir' (.settled result)
  | works {lock : ℕ} {work work' : Work codec} {dir' : KeyDir}
      (hwork : work.advance pid dir event = some (dir', work')) :
      Step pid dir event (.holding lock work) dir' (.holding lock work')

theorem Phase.advance_holding {lock : ℕ} (hwork : ∀ result, work ≠ .releasing result)
    (hdies : event ≠ .dies) :
    (holding lock work).advance pid dir event =
      (work.advance pid dir event).map fun (next, work') => (next, holding lock work') := by
  cases work with
  | releasing result => exact absurd rfl (hwork result)
  | _ => cases event <;> first | rfl | exact absurd rfl hdies

theorem Phase.step_of_dies (hdies : phase.advance pid dir .dies = some (dir', phase')) :
    Phase.Step pid dir .dies phase dir' phase' := by
  cases phase with
  | settled result => cases hdies
  | crashed => cases hdies
  | _ =>
      obtain ⟨rfl, rfl⟩ := Prod.mk.inj (Option.some.inj hdies)
      exact .idles trivial

theorem Phase.step_of_holding {lock : ℕ} (hdies : event ≠ .dies)
    (h : (holding lock work).advance pid dir event = some (dir', phase')) :
    Phase.Step pid dir event (.holding lock work) dir' phase' := by
  by_cases hwork : ∃ result, work = .releasing result
  · obtain ⟨result, rfl⟩ := hwork
    cases event with
    | proceeds =>
        obtain ⟨rfl, rfl⟩ := Prod.mk.inj (Option.some.inj h)
        exact .releases Directory.getD_unlink
    | throws =>
        obtain ⟨rfl, rfl⟩ := Prod.mk.inj (Option.some.inj h)
        exact .releases (.inr rfl)
    | dies => exact absurd rfl hdies
    | _ => cases h
  · rw [Phase.advance_holding (not_exists.mp hwork) hdies] at h
    obtain ⟨⟨next, work'⟩, hadvance, hpair⟩ := Option.map_eq_some_iff.mp h
    obtain ⟨rfl, rfl⟩ := Prod.mk.inj hpair
    exact .works hadvance

theorem Phase.step_of_advance (h : phase.advance pid dir event = some (dir', phase')) :
    Phase.Step pid dir event phase dir' phase' := by
  by_cases hdies : event = .dies
  · subst hdies
    exact step_of_dies h
  cases phase with
  | settled result => cases h
  | crashed => cases h
  | holding lock work => exact step_of_holding hdies h
  | checking =>
      cases event with
      | proceeds =>
          obtain ⟨rfl, rfl⟩ := Prod.mk.inj (Option.some.inj h)
          split_ifs <;> exact .idles trivial
      | dies => exact absurd rfl hdies
      | _ => cases h
  | loading =>
      cases event with
      | proceeds =>
          obtain ⟨rfl, rfl⟩ := Prod.mk.inj (Option.some.inj h)
          exact .idles ⟨readResult_holds, not_isMade_readResult⟩
      | throws =>
          obtain ⟨rfl, rfl⟩ := Prod.mk.inj (Option.some.inj h)
          exact .idles ⟨trivial, id⟩
      | dies => exact absurd rfl hdies
      | _ => cases h
  | creating waited =>
      cases event with
      | proceeds =>
          -- the exclusive open succeeds only without a lock
          simp only [Phase.advance] at h
          split at h
          · next lock locked hopen =>
              obtain ⟨hfree, rfl, rfl⟩ := Directory.openExclusive_eq_some hopen
              obtain ⟨rfl, rfl⟩ := Prod.mk.inj (Option.some.inj h)
              exact .acquires hfree
          · obtain ⟨rfl, rfl⟩ := Prod.mk.inj (Option.some.inj h)
            exact .idles trivial
      | throws =>
          obtain ⟨rfl, rfl⟩ := Prod.mk.inj (Option.some.inj h)
          exact .idles ⟨trivial, id⟩
      | dies => exact absurd rfl hdies
      | _ => cases h
  | looking waited =>
      cases event with
      | proceeds =>
          simp only [Phase.advance] at h
          -- the lock is old, the waiting is over, or the call sleeps
          split_ifs at h
          all_goals obtain ⟨rfl, rfl⟩ := Prod.mk.inj (Option.some.inj h)
          · exact .idles trivial
          · exact .idles ⟨trivial, id⟩
          · exact .idles trivial
      | dies => exact absurd rfl hdies
      | _ => cases h
  | sleeping waited =>
      cases event with
      | proceeds =>
          obtain ⟨rfl, rfl⟩ := Prod.mk.inj (Option.some.inj h)
          exact .idles trivial
      | dies => exact absurd rfl hdies
      | _ => cases h

end Calls

/-! ## Any number of calls -/

section Calls

variable {P : Type} [DecidableEq P] {pid : P → ℕ} {start : KeyDir} {s s' : Starts codec P}

/-- What holds in every state. -/
structure Starts.Inv (pid : P → ℕ) (start : KeyDir) (s : Starts codec P) : Prop where
  holds : ∀ p, (s.phase p).Holds (pid p) s.dir
  alone : ∀ {p q lock lock' work work'}, s.phase p = .holding lock work →
    s.phase q = .holding lock' work' → p = q
  stays : KeyStays codec start s.dir
  made : ∀ {p q}, (s.phase p).Made → (s.phase q).Made → p = q
  absent : ∀ {p}, (s.phase p).Made → start.content .key = none

/-- A call that does not hold the lock relies on the file of the key alone. -/
theorem Phase.Holds.of_stays {phase : Phase codec} {n : ℕ} {dir dir' : KeyDir}
    (h : phase.Holds n dir) (hfree : ∀ lock work, phase ≠ .holding lock work)
    (hstays : KeyStays codec dir dir') : phase.Holds n dir' := by
  cases phase with
  | holding lock work => exact absurd rfl (hfree lock work)
  | settled result => exact ResultHolds.of_stays h hstays
  | _ => trivial

/-- A call that has made a key has left it in its file. -/
theorem Phase.Made.content_ne {phase : Phase codec} {n : ℕ} {dir : KeyDir} (hmade : phase.Made)
    (h : phase.Holds n dir) : dir.content .key ≠ none := by
  have hresult : ∀ result : LoadResult codec, IsMade result → ResultHolds dir result →
      dir.content .key ≠ none := by
    intro result hmade h
    cases result with
    | error error => cases hmade
    | ok loaded =>
        obtain ⟨-, bytes, hbytes, -⟩ := h
        rw [hbytes]
        exact Option.some_ne_none bytes
  cases phase with
  | settled result => exact hresult result hmade h
  | holding lock work =>
      cases work with
      | releasing result => exact hresult result hmade h.2
      | _ => cases hmade
  | _ => cases hmade

theorem KeyStays.trans {dir dir' dir'' : KeyDir} (h : KeyStays codec dir dir')
    (h' : KeyStays codec dir' dir'') : KeyStays codec dir dir'' := by
  rcases h with hsame | ⟨hnone, key, htype, hbytes⟩
  · rcases h' with hsame' | ⟨hnone', hnew⟩
    · exact .inl (hsame'.trans hsame)
    · exact .inr ⟨hsame.symm.trans hnone', hnew⟩
  · exact .inr ⟨hnone, key, htype, h'.content_eq hbytes⟩

theorem KeyStays.eq_none {dir dir' : KeyDir} (h : KeyStays codec dir dir')
    (hnone : dir'.content .key = none) : dir.content .key = none := by
  rcases h with hsame | ⟨hstart, -⟩
  · exact hsame.symm.trans hnone
  · exact hstart

/-- What one process at most is in stays so, if the process that moves gets there alone. -/
theorem unique_update {α : Type} {Q : α → Prop} {f : P → α} {p : P} {a : α}
    (honly : ∀ {q r}, Q (f q) → Q (f r) → q = r) (hnew : Q a → ∀ q ≠ p, ¬ Q (f q)) {q r : P}
    (hq : Q (Function.update f p a q)) (hr : Q (Function.update f p a r)) : q = r := by
  -- two others are as before, and one of two is the process itself
  by_cases hqp : q = p <;> by_cases hrp : r = p
  · exact hqp.trans hrp.symm
  · subst hqp
    rw [Function.update_self] at hq
    rw [Function.update_of_ne hrp] at hr
    exact absurd hr (hnew hq r hrp)
  · subst hrp
    rw [Function.update_of_ne hqp] at hq
    rw [Function.update_self] at hr
    exact absurd hq (hnew hr q hqp)
  · rw [Function.update_of_ne hqp] at hq
    rw [Function.update_of_ne hrp] at hr
    exact honly hq hr

/-- A call goes on to another phase. -/
theorem Starts.Inv.update {p : P} {dir' : KeyDir} {phase' : Phase codec} (hinv : s.Inv pid start)
    (hholds : phase'.Holds (pid p) dir') (hstays : KeyStays codec s.dir dir')
    (hothers : ∀ q ≠ p, (s.phase q).Holds (pid q) dir')
    (halone : ∀ lock work, phase' = .holding lock work →
      ∀ q ≠ p, ∀ lock' work', s.phase q ≠ .holding lock' work')
    (hmade : phase'.Made → (s.phase p).Made ∨ s.dir.content .key = none) :
    Starts.Inv pid start ⟨dir', Function.update s.phase p phase'⟩ := by
  have hself : Function.update s.phase p phase' p = phase' := Function.update_self ..
  have hother : ∀ q ≠ p, Function.update s.phase p phase' q = s.phase q :=
    fun q hq => Function.update_of_ne hq ..
  -- a call that makes the key now found none, so no other one has made it
  have honce : phase'.Made → ∀ q ≠ p, ¬ (s.phase q).Made := by
    intro hp q hq hqmade
    rcases hmade hp with hbefore | hnone
    · exact hq (hinv.made hqmade hbefore)
    · exact hqmade.content_ne (hinv.holds q) hnone
  constructor
  case holds =>
    intro q
    by_cases hq : q = p
    · subst hq
      simpa only [hself] using hholds
    · simpa only [hother q hq] using hothers q hq
  case alone =>
    intro q r lock lock' work work' hq hr
    refine unique_update (Q := fun phase : Phase codec => ∃ lock work, phase = .holding lock work)
      (f := s.phase) (a := phase') ?_ ?_ ⟨lock, work, hq⟩ ⟨lock', work', hr⟩
    · rintro q r ⟨lock, work, hq⟩ ⟨lock', work', hr⟩
      exact hinv.alone hq hr
    · rintro ⟨lock, work, hp⟩ q hq ⟨lock', work', hother⟩
      exact halone lock work hp q hq lock' work' hother
  case stays => exact hinv.stays.trans hstays
  case made => exact unique_update hinv.made honce
  case absent =>
    intro q hq
    dsimp only at hq
    by_cases hqp : q = p
    · subst hqp
      rw [hself] at hq
      -- it made the key before, or there was none so far
      rcases hmade hq with hbefore | hnone
      · exact hinv.absent hbefore
      · exact hinv.stays.eq_none hnone
    · rw [hother q hqp] at hq
      exact hinv.absent hq

variable (s) in
/-- The lock is there without a holder, and no key is. -/
structure Starts.Orphaned : Prop where
  lock : s.dir.entry .lock ≠ none
  key : s.dir.content .key = none
  free : ∀ p lock work, s.phase p ≠ .holding lock work

theorem keyStarts_step (hcodec : codec.Lawful) {a : P × KeyEvent codec} (hinv : s.Inv pid start)
    (h : (keyStarts codec pid start).step s a = some s') :
    s'.Inv pid start ∧ KeyStays codec s.dir s'.dir := by
  obtain ⟨p, event⟩ := a
  obtain ⟨⟨dir', phase'⟩, hadvance, rfl⟩ := Option.map_eq_some_iff.mp h
  have hstep := Phase.step_of_advance hadvance
  have hholds := hinv.holds p
  -- while one call holds the lock, the others rely on the file of the key alone
  have hothers : ∀ {lock work}, s.phase p = .holding lock work → KeyStays codec s.dir dir' →
      ∀ q ≠ p, (s.phase q).Holds (pid q) dir' := by
    intro lock work hp hstays q hq
    exact (hinv.holds q).of_stays (fun lock' work' heq => hq (hinv.alone heq hp)) hstays
  generalize hp : s.phase p = found at hstep
  rw [hp] at hholds
  cases hstep with
  | idles hidle =>
      refine ⟨hinv.update ?_ (.inl rfl) (fun q _ => hinv.holds q) ?_ ?_, .inl rfl⟩
      · cases phase' with
        | holding lock work => cases hidle
        | settled result => exact hidle.1
        | _ => trivial
      · rintro lock work rfl
        cases hidle
      · intro hmade
        cases phase' with
        | holding lock work => cases hidle
        | settled result => exact absurd hmade hidle.2
        | _ => cases hmade
  | acquires hfree =>
      have hnone : ∀ q lock work, s.phase q ≠ .holding lock work := by
        intro q lock work hq
        have hlock := hinv.holds q
        rw [hq] at hlock
        exact Option.some_ne_none lock (hlock.1.symm.trans hfree)
      have hstays : KeyStays codec s.dir (s.dir.create .lock) :=
        .inl (Directory.content_create.trans (if_neg (by decide)))
      refine ⟨hinv.update ⟨Directory.entry_create.trans (if_pos rfl), trivial⟩ hstays ?_ ?_ ?_,
        hstays⟩
      · exact fun q _ => (hinv.holds q).of_stays (hnone q) hstays
      · exact fun _ _ _ q _ => hnone q
      · exact False.elim
  | @releases lock result dir' hdir =>
      have hstays : KeyStays codec s.dir dir' := by
        rcases hdir with rfl | rfl
        · exact .inl (Directory.content_remove.trans (if_neg (by decide)))
        · exact .inl rfl
      refine ⟨hinv.update ?_ hstays (hothers hp hstays) ?_ ?_, hstays⟩
      · exact ResultHolds.of_stays hholds.2 hstays
      · intro _ _ heq
        cases heq
      · rw [hp]
        exact .inl
  | @works lock work work' dir' hwork =>
      have hkeeps := Work.keeps_advance hcodec hholds.2 hwork
      refine ⟨hinv.update ⟨hkeeps.lock.trans hholds.1, hkeeps.work⟩ hkeeps.key
        (hothers hp hkeeps.key) ?_ ?_, hkeeps.key⟩
      · exact fun _ _ _ q hq lock' work'' heq => hq (hinv.alone heq hp)
      · intro hmade
        refine .inr (hkeeps.made ?_)
        cases work' with
        | releasing result => exact hmade
        | _ => cases hmade

/-- A lock that nobody holds is never removed. -/
theorem Starts.Orphaned.step {a : P × KeyEvent codec} (horphaned : s.Orphaned)
    (h : (keyStarts codec pid start).step s a = some s') : s'.Orphaned := by
  obtain ⟨p, event⟩ := a
  obtain ⟨⟨dir', phase'⟩, hadvance, rfl⟩ := Option.map_eq_some_iff.mp h
  have hstep := Phase.step_of_advance hadvance
  generalize hp : s.phase p = found at hstep
  cases hstep with
  | idles hidle =>
      refine ⟨horphaned.lock, horphaned.key, fun q lock work hq => ?_⟩
      dsimp only at hq
      by_cases hqp : q = p
      · subst hqp
        rw [Function.update_self] at hq
        subst hq
        cases hidle
      · rw [Function.update_of_ne hqp] at hq
        exact horphaned.free q lock work hq
  | acquires hfree => exact absurd hfree horphaned.lock
  | releases hdir => exact absurd hp (horphaned.free p _ _)
  | works hwork => exact absurd hp (horphaned.free p _ _)

theorem keyStarts_inv (hcodec : codec.Lawful)
    (hs : (keyStarts codec pid start).Reachable s) : s.Inv pid start := by
  refine Machine.Reachable.invariant (I := Starts.Inv pid start) ?_ (fun s a s' hinv hstep => ?_) hs
  case refine_2 => exact (keyStarts_step hcodec hinv hstep).1
  exact {
    holds := fun _ => trivial
    alone := fun h => by cases h
    stays := .inl rfl
    made := fun h => by cases h
    absent := fun h => by cases h }

/-- What the calls and the file agree on. -/
structure Starts.Agreed (start : KeyDir) (s : Starts codec P) : Prop where
  /-- A key that was returned is the one in the file, with its name. -/
  returned : ∀ p loaded, s.phase p = .settled (.ok loaded) →
    loaded.peerId = codec.libp2pPeerIdString loaded.privateKey ∧
      (s.dir.content .key).bind codec.load = some loaded.privateKey
  same : ∀ p q loaded loaded', s.phase p = .settled (.ok loaded) →
    s.phase q = .settled (.ok loaded') →
      loaded.privateKey = loaded'.privateKey ∧ loaded.peerId = loaded'.peerId
  /-- The file is the one that was found, or a whole key where none was found. -/
  whole : s.dir.content .key = start.content .key ∨ start.content .key = none ∧
    ∃ key, codec.type key = "Ed25519" ∧
      s.dir.content .key = some (codec.privateKeyToProtobuf key)
  /-- One call at most makes a key, and only where none was found. -/
  once : ∀ p q loaded loaded', s.phase p = .settled (.ok loaded) →
    s.phase q = .settled (.ok loaded') → loaded.generated = true → loaded'.generated = true →
      p = q ∧ start.content .key = none
  /-- A file is refused only if it was found so. -/
  refused : ∀ p, s.phase p = .settled (.error .invalid) →
    ∃ bytes, start.content .key = some bytes ∧ codec.load bytes = none
  /-- Nobody who waits for a lock without a holder gets a key. -/
  orphaned : s.Orphaned → ∀ p loaded, s.phase p ≠ .settled (.ok loaded)

/-- However the calls interleave, fail and die, all that return a key return the one that is in the
file, and it does not change any more. -/
theorem libp2pKey_agreed (hcodec : codec.Lawful)
    (hs : (keyStarts codec pid start).Reachable s) :
    s.Agreed start ∧ ∀ a s', (keyStarts codec pid start).step s a = some s' →
      (∀ bytes, s.dir.content .key = some bytes → s'.dir.content .key = some bytes) ∧
        (s.Orphaned → s'.Orphaned) := by
  have hinv := keyStarts_inv hcodec hs
  have hfile : ∀ p loaded, s.phase p = .settled (.ok loaded) → loaded.InFile s.dir := by
    intro p loaded hp
    have hholds := hinv.holds p
    rwa [hp] at hholds
  have hmade : ∀ p loaded, s.phase p = .settled (.ok loaded) → loaded.generated = true →
      (s.phase p).Made := by
    intro p loaded hp hgenerated
    rw [hp]
    exact hgenerated
  -- what a call returned is what the file gives to everyone who loads it
  have hload : ∀ p loaded, s.phase p = .settled (.ok loaded) →
      (s.dir.content .key).bind codec.load = some loaded.privateKey := by
    intro p loaded hp
    obtain ⟨-, bytes, hbytes, hload⟩ := hfile p loaded hp
    rw [hbytes]
    exact hload
  refine ⟨?_, fun a s' hstep => ⟨fun bytes => ?_, fun h => h.step hstep⟩⟩
  · constructor
    case returned => exact fun p loaded hp => ⟨(hfile p loaded hp).peerId, hload p loaded hp⟩
    case same =>
      intro p q loaded loaded' hp hq
      have hkey : loaded.privateKey = loaded'.privateKey :=
        Option.some.inj ((hload p loaded hp).symm.trans (hload q loaded' hq))
      exact ⟨hkey, by rw [(hfile p loaded hp).peerId, (hfile q loaded' hq).peerId, hkey]⟩
    case whole => exact hinv.stays
    case once =>
      intro p q loaded loaded' hp hq hgenerated hgenerated'
      exact ⟨hinv.made (hmade p loaded hp hgenerated) (hmade q loaded' hq hgenerated'),
        hinv.absent (hmade p loaded hp hgenerated)⟩
    case refused =>
      intro p hp
      have hholds := hinv.holds p
      rw [hp] at hholds
      obtain ⟨bytes, hbytes, hinvalid⟩ := hholds
      -- a key that was written here is never refused, so the file is from before
      rcases hinv.stays with hsame | ⟨-, key, htype, hwritten⟩
      · exact ⟨bytes, hsame.symm.trans hbytes, hinvalid⟩
      · obtain rfl := Option.some.inj (hbytes.symm.trans hwritten)
        simp [KeyCodec.load, hcodec key htype, htype] at hinvalid
    case orphaned =>
      -- without a file nobody has a key to return
      intro horphaned p loaded hp
      obtain ⟨-, bytes, hbytes, -⟩ := hfile p loaded hp
      rw [horphaned.key] at hbytes
      cases hbytes
  · exact (keyStarts_step hcodec hinv hstep).2.content_eq

end Calls

/-! ## A run -/

/-- Keys of one byte. -/
def byteCodec : KeyCodec where
  PrivateKey := UInt8
  type _ := "Ed25519"
  privateKeyFromProtobuf
    | [byte] => some byte
    | _ => none
  privateKeyToProtobuf byte := [byte]
  libp2pPeerIdString byte := toString byte.toNat

/-- The first call makes a key; the second one waits for the lock and finds the key. -/
def crossingKeys : List (Bool × KeyEvent byteCodec) :=
  [(true, .proceeds), (false, .proceeds), (true, .proceeds), (false, .proceeds), (false, .proceeds),
    (true, .proceeds), (true, .generates (7 : UInt8)), (true, .proceeds), (true, .writes 1),
    (true, .proceeds), (true, .proceeds), (true, .proceeds), (true, .proceeds), (false, .proceeds),
    (false, .proceeds), (false, .proceeds), (false, .proceeds), (true, .proceeds)]

def crossingCalls : Machine (Starts byteCodec Bool) (Bool × KeyEvent byteCodec) :=
  keyStarts byteCodec (fun _ => 1) Directory.empty

/-- What a call has returned. -/
def returnedPeer (s : Starts byteCodec Bool) (p : Bool) : Option (Bool × String) :=
  match s.phase p with
  | .settled (.ok loaded) => some (loaded.generated, loaded.peerId)
  | _ => none

theorem libp2pKey_agreed_crossing :
    ∃ s, crossingCalls.runFrom crossingCalls.init crossingKeys = some s ∧
      [true, false].map (returnedPeer s) = [some (true, "7"), some (false, "7")] ∧
        s.Agreed Directory.empty := by
  have hsome : (crossingCalls.runFrom crossingCalls.init crossingKeys).isSome := by decide +kernel
  obtain ⟨s, hs⟩ := Option.isSome_iff_exists.mp hsome
  have hpeer : (crossingCalls.runFrom crossingCalls.init crossingKeys).map
      (fun s => [true, false].map (returnedPeer s)) =
        some [some (true, "7"), some (false, "7")] := by decide +kernel
  rw [hs] at hpeer
  have hlawful : byteCodec.Lawful := fun _ _ => rfl
  exact ⟨s, hs, Option.some.inj hpeer,
    (libp2pKey_agreed hlawful (Machine.reachable_of_runFrom hs)).1⟩

end ThinkLocal.Mesh.Libp2p
