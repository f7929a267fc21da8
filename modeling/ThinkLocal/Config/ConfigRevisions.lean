import ThinkLocal.Js.Json
import ThinkLocal.Registry.CapabilityRegistry
import ThinkLocal.Js.JsonGrammar
import ThinkLocal.Js.Utf8

/-!
# Configuration revisions

The table of `ConfigRevisions`.  A configuration that is recorded is any JSON value, since a
rollback records what it has read from a file; the keys and the sections of a value that is no
object are those that JavaScript gives it.
-/

namespace ThinkLocal.Config

section

open Js
open Js.Data (hexDigit)
open Registry.CapabilityRegistry (codeUnits)

inductive ConfigChangeSource
  | manual
  | mesh
  | rollback
  | env
  | bootstrap
deriving DecidableEq

structure ConfigRevisionRow where
  id : Int
  beforeConfig : String
  afterConfig : String
  changedKeys : String
  source : ConfigChangeSource
  note : Option String
  createdAt : String

/-- The table, in the order of its ids.  No id is given twice, also not after a deletion. -/
structure ConfigRevisions where
  rows : List ConfigRevisionRow
  lastId : Int
  ascending : rows.Pairwise fun row later => row.id < later.id
  numbered : ∀ row ∈ rows, row.id ≤ lastId

/-! ## What has changed -/

/-- `Object.keys(value)`, `none` where it throws. -/
def objectKeys : Json → Option (List String)
  | .object fields => some (fields.map Prod.fst)
  | .array items => some ((List.range items.length).map toString)
  | .string text => some ((List.range (codeUnits text).length).map toString)
  | .number _ | .boolean _ => some []
  | .null => none

/-- `JSON.stringify` of one code unit of a text. -/
def unitText (unit : Nat) : String :=
  if Json.isSurrogate unit then
    "\"\\u" ++ String.ofList ([12, 8, 4, 0].map fun shift => hexDigit (unit / 2 ^ shift % 16)) ++ "\""
  else Json.stringify 0 (.string (String.singleton (Char.ofNat unit)))

/-- `JSON.stringify(value[key])`, `none` if it is undefined.  A method has no text, but a prototype
has one. -/
def sectionText (value : Json) (key : String) : Option String :=
  match value with
  | .object fields =>
      match Json.fieldOf fields key with
      | some value => some (Json.stringify 0 value)
      | none => if key = "__proto__" then some "\x7b\x7d" else none
  | .array items =>
      if key = "length" then some (toString items.length)
      else if key = "__proto__" then some "[]"
      else (Json.arrayIndex key).bind fun i => items[i]?.map (Json.stringify 0)
  | .string text =>
      if key = "length" then some (toString (codeUnits text).length)
      else if key = "__proto__" then some "\"\""
      else (Json.arrayIndex key).bind fun i => (codeUnits text)[i]?.map unitText
  | .number _ => if key = "__proto__" then some "0" else none
  | .boolean _ => if key = "__proto__" then some "false" else none
  | .null => none

/-- `diffTopLevelKeys`, `none` where it throws. -/
def diffTopLevelKeys (a b : Json) : Option (List String) :=
  (objectKeys a).bind fun aKeys => (objectKeys b).map fun bKeys =>
    let keys := aKeys ++ bKeys.filter fun key => key ∉ aKeys
    let changed := keys.filter fun key => sectionText a key ≠ sectionText b key
    changed.mergeSort fun key other => decide (codeUnits key ≤ codeUnits other)

/-! ## The table -/

namespace ConfigRevisions

/-- The row of an insertion, under the next id. -/
def insert (revisions : ConfigRevisions) (row : ConfigRevisionRow) : ConfigRevisions where
  rows := revisions.rows ++ [{ row with id := revisions.lastId + 1 }]
  lastId := revisions.lastId + 1
  ascending := by
    refine List.pairwise_append.mpr ⟨revisions.ascending, List.pairwise_singleton _ _, ?_⟩
    intro earlier hearlier inserted hinserted
    obtain rfl := List.mem_singleton.mp hinserted
    exact Int.lt_add_one_of_le (revisions.numbered earlier hearlier)
  numbered := by
    intro other hother
    rcases List.mem_append.mp hother with hold | hnew
    · exact (revisions.numbered other hold).trans (Int.le_add_one le_rfl)
    · obtain rfl := List.mem_singleton.mp hnew
      exact le_rfl

/-- `record`, with the clock's text and whether the insertion succeeds; `none` where it throws. -/
def record (revisions : ConfigRevisions) (before after : Json) (source : ConfigChangeSource)
    (note : Option String) (now : String) (inserts : Bool) :
    Option (ConfigRevisions × Option Int) :=
  (diffTopLevelKeys before after).bind fun changed =>
    if changed.length = 0 then some (revisions, none)
    else if inserts then
      some (revisions.insert
        { id := revisions.lastId + 1
          beforeConfig := Json.stringify 0 before
          afterConfig := Json.stringify 0 after
          changedKeys := ",".intercalate changed
          source, note
          createdAt := now }, some (revisions.lastId + 1))
    else none

def list (revisions : ConfigRevisions) (limit : Nat) : List ConfigRevisionRow :=
  revisions.rows.reverse.take limit

def get (revisions : ConfigRevisions) (id : Int) : Option ConfigRevisionRow :=
  revisions.rows.find? fun row => row.id = id

def count (revisions : ConfigRevisions) : Nat := revisions.rows.length

end ConfigRevisions

end

/-! ## Rolling the configuration back

`ConfigRollback` and the part of `loadConfig` that reads the file.  A snapshot is a JSON text and
the file is read as TOML: a rollback that succeeds leaves a file that cannot be loaded.
-/

open Js Foundation

/-! ### Loading the file -/

/-- A value of a TOML file or of a snapshot. -/
inductive Setting
  | null
  | boolean (value : Bool)
  | number (value : Number)
  | text (text : String)
  | date (text : String)
  | array (items : List Setting)
  | table (fields : List (String × Setting))

namespace Setting

mutual

def ofJson : Json → Setting
  | .null => null
  | .boolean value => boolean value
  | .number value => number value
  | .string written => text written
  | .array items => array (ofItems items)
  | .object fields => table (ofFields fields)

def ofItems : List Json → List Setting
  | [] => []
  | item :: items => ofJson item :: ofItems items

def ofFields : List (String × Json) → List (String × Setting)
  | [] => []
  | (key, value) :: fields => (key, ofJson value) :: ofFields fields

end

def field (fields : List (String × Setting)) (key : String) : Option Setting :=
  (fields.find? fun field => field.1 = key).map Prod.snd

def setField (fields : List (String × Setting)) (key : String) (value : Setting) :
    List (String × Setting) :=
  if key ∈ fields.map Prod.fst then
    fields.map fun field => if field.1 = key then (key, value) else field
  else fields ++ [(key, value)]

mutual

/-- The value of a key after `deepMerge`; only a table is merged into a table. -/
def mergeValue (target : Option Setting) (source : Setting) : Option Setting :=
  match source, target with
  | .table source, some (.table target) => some (.table (deepMerge target source))
  | .table _, some (.date target) => some (.date target)
  | .date _, some (.table target) => some (.table target)
  | .date _, some (.date target) => some (.date target)
  | .text written, target => if written = "" then target else some (.text written)
  | source, _ => some source

def deepMerge (target : List (String × Setting)) (source : List (String × Setting)) :
    List (String × Setting) :=
  match source with
  | [] => target
  | (key, value) :: source =>
      match mergeValue (field target key) value with
      | some merged => deepMerge (setField target key merged) source
      | none => deepMerge target source

end

/-- `typeof parsed.libp2p?.listen_port === 'number'`. -/
def hasExplicitLibp2pPort (parsed : List (String × Setting)) : Bool :=
  match field parsed "libp2p" with
  | some (table libp2p) =>
      match field libp2p "listen_port" with
      | some (number _) => true
      | _ => false
  | _ => false

end Setting

/-- What `loadConfig` is given: the parser of TOML files, `DEFAULTS`, and what becomes of the merged
settings with the environment and the checks behind it, `none` where one of them throws. -/
structure ConfigLoader (DaemonConfig : Type) where
  toml : String → Option (List (String × Setting))
  defaults : List (String × Setting)
  settle : List (String × Setting) → Bool → Option DaemonConfig

variable {DaemonConfig : Type} {loader : ConfigLoader DaemonConfig}

/-- What becomes of the settings of a file. -/
def ConfigLoader.merge (loader : ConfigLoader DaemonConfig) (parsed : List (String × Setting)) :
    Option DaemonConfig :=
  loader.settle (Setting.deepMerge loader.defaults parsed) (Setting.hasExplicitLibp2pPort parsed)

/-- `loadConfig`, `none` where it throws. -/
def loadConfig (loader : ConfigLoader DaemonConfig) : Option Bytes → Option DaemonConfig
  | none => loader.settle loader.defaults false
  | some bytes => (loader.toml (String.ofList (decodeUtf8 bytes))).bind loader.merge

/-- The configuration with the settings of a snapshot. -/
def snapshotConfig (loader : ConfigLoader DaemonConfig) (snapshot : String) :
    Option DaemonConfig :=
  match Json.parse snapshot with
  | some (.object fields) => loader.merge (Setting.ofFields fields)
  | _ => none

/-- No TOML file begins with a brace. -/
def RejectsBraces (toml : String → Option (List (String × Setting))) : Prop :=
  ∀ text, (Json.skipBlanks text.toList).head? = some '\x7b' → toml text = none

/-! ### The rollback -/

structure RollbackResult where
  ok : Bool
  message : String
  revision : Option ConfigRevisionRow
  appliedConfig : Option Json

/-- What the calls of one rollback meet: the failures of reading and of writing the file with their
messages, the second with what it leaves in the file. -/
structure Calls where
  readError : Option String
  writeError : Option (String × Bytes)
  inserts : Bool
  now : String
  /-- The messages of the runtime for a file that is not there and for a text that is no JSON. -/
  noFile : String
  syntaxError : String → String

/-- A rollback with these calls meets no failure. -/
def Calls.Succeed (calls : Calls) : Prop :=
  calls.readError = none ∧ calls.writeError = none ∧ calls.inserts = true

/-- The table of revisions and the file. -/
structure ConfigRollback where
  store : ConfigRevisions
  file : Option Bytes

namespace ConfigRollback

def listRevisions (rollback : ConfigRollback) (limit : Nat) : List ConfigRevisionRow :=
  rollback.store.list limit

def getRevision (rollback : ConfigRollback) (id : Int) : Option ConfigRevisionRow :=
  rollback.store.get id

/-- `readFileSync(configPath)`. -/
def readFile (calls : Calls) (file : Option Bytes) : Except String Bytes :=
  match calls.readError, file with
  | some message, _ => .error message
  | none, none => .error calls.noFile
  | none, some bytes => .ok bytes

/-- The revision of a rollback; where a text is no JSON or `record` throws there is none. -/
def recordRollback (calls : Calls) (store : ConfigRevisions) (current restored : String) :
    ConfigRevisions :=
  let recorded := (Json.parse current).bind fun before => (Json.parse restored).bind fun after =>
    store.record before after .rollback none calls.now calls.inserts
  (recorded.map Prod.fst).getD store

def failed (message : String) : RollbackResult :=
  { ok := false, message, revision := none, appliedConfig := none }

/-- The end of a rollback behind the write, with the file that it replaced. -/
def finish (calls : Calls) (store : ConfigRevisions) (target : ConfigRevisionRow)
    (current : Bytes) : RollbackResult × ConfigRollback :=
  let restored := target.beforeConfig
  let after : ConfigRollback :=
    { store := recordRollback calls store (String.ofList (decodeUtf8 current)) restored
      file := some (encodeUtf8 restored.toList) }
  match Json.parse restored with
  | some applied =>
      ({ ok := true
         message := s!"Rolled back to revision {target.id} (before state)"
         revision := some target
         appliedConfig := some applied }, after)
  | none => (failed ("Rollback failed: " ++ calls.syntaxError restored), after)

/-- `rollbackTo`. -/
def rollbackTo (calls : Calls) (rollback : ConfigRollback) (revisionId : Int) :
    RollbackResult × ConfigRollback :=
  match rollback.store.get revisionId with
  | none => (failed s!"Revision {revisionId} not found", rollback)
  | some target =>
      if target.beforeConfig = "" then
        (failed s!"Revision {revisionId} has no before_config snapshot", rollback)
      else
        match readFile calls rollback.file with
        | .error message => (failed ("Rollback failed: " ++ message), rollback)
        | .ok current =>
            match calls.writeError with
            | some (message, left) =>
                (failed ("Rollback failed: " ++ message), { rollback with file := some left })
            | none => finish calls rollback.store target current

/-- `rollbackLast`. -/
def rollbackLast (calls : Calls) (rollback : ConfigRollback) : RollbackResult × ConfigRollback :=
  match rollback.store.list 1 with
  | [] => (failed "No revisions to rollback", rollback)
  | latest :: _ => rollbackTo calls rollback latest.id

/-! ### What a rollback promises -/

/-- The file loads with the settings of the snapshot, and a revision has been recorded by which the
next rollback restores the configuration before. -/
def Restores (loader : ConfigLoader DaemonConfig) (before after : ConfigRollback)
    (snapshot : String) : Prop :=
  (∃ config, loadConfig loader after.file = some config ∧
    snapshotConfig loader snapshot = some config) ∧
  (∃ row, after.store.rows = before.store.rows ++ [row] ∧
    snapshotConfig loader row.beforeConfig = loadConfig loader before.file) ∧
  ∀ calls : Calls, calls.Succeed →
    loadConfig loader (rollbackLast calls after).2.file = loadConfig loader before.file

/-- The promise of a rollback: the snapshot is restored, or the file is as it was. -/
def KeepsPromise (loader : ConfigLoader DaemonConfig) (calls : Calls) (rollback : ConfigRollback)
    (revisionId : Int) : Prop :=
  let after := rollbackTo calls rollback revisionId
  if after.1.ok then
    ∃ target ∈ after.1.revision, Restores loader rollback after.2 target.beforeConfig
  else after.2.file = rollback.file

/-- The call does not replace the file: it comes to no write, the write fails and leaves the
content, or what it writes is the content already and is no JSON. -/
def LeavesFile (calls : Calls) (rollback : ConfigRollback) (revisionId : Int) : Prop :=
  ∀ target ∈ rollback.store.get revisionId, target.beforeConfig ≠ "" →
    ∀ current ∈ (readFile calls rollback.file).toOption,
      match calls.writeError with
      | some (_, left) => left = current
      | none => Json.parse target.beforeConfig = none ∧
          encodeUtf8 target.beforeConfig.toList = current

/-! ### When it is kept -/

theorem head_of_parse_object {text : String} {fields : List (String × Json)}
    (h : Json.parse text = some (.object fields)) :
    (Json.skipBlanks text.toList).head? = some '\x7b' := by
  obtain ⟨rest, hreads, -⟩ := Json.parse_eq_some_iff.mp h
  cases hreads with
  | emptyObject hskip => rw [hskip, List.head?_cons]
  | object hskip => rw [hskip, List.head?_cons]

/-- The file of a restored snapshot does not load. -/
theorem loadConfig_snapshot (htoml : RejectsBraces loader.toml) {snapshot : String}
    {fields : List (String × Json)} (h : Json.parse snapshot = some (.object fields)) :
    loadConfig loader (some (encodeUtf8 snapshot.toList)) = none := by
  rw [loadConfig, decodeUtf8_encodeUtf8, String.ofList_toList,
    htoml snapshot (head_of_parse_object h), Option.bind_none]

/-- A rollback to a snapshot never restores it. -/
theorem not_restores (htoml : RejectsBraces loader.toml) {before after : ConfigRollback}
    {snapshot : String} (hfile : after.file = some (encodeUtf8 snapshot.toList)) :
    ¬ Restores loader before after snapshot := by
  rintro ⟨⟨config, hload, hsnapshot⟩, -⟩
  rw [snapshotConfig] at hsnapshot
  split at hsnapshot
  · next fields hparse =>
      rw [hfile, loadConfig_snapshot htoml hparse] at hload
      cases hload
  · cases hsnapshot

variable {calls : Calls} {rollback : ConfigRollback} {target : ConfigRevisionRow}
  {revisionId : Int} {current : Bytes}

theorem file_of_readFile (h : readFile calls rollback.file = .ok current) :
    rollback.file = some current := by
  unfold readFile at h
  split at h
  · cases h
  · cases h
  · next bytes hfile => rw [hfile, Except.ok.inj h]

theorem rollbackTo_of_written (hget : rollback.store.get revisionId = some target)
    (hsnapshot : target.beforeConfig ≠ "") (hread : readFile calls rollback.file = .ok current)
    (hwrite : calls.writeError = none) :
    rollbackTo calls rollback revisionId = finish calls rollback.store target current := by
  simp only [rollbackTo, hget, if_neg hsnapshot, hread, hwrite]

theorem finish_file (store : ConfigRevisions) :
    (finish calls store target current).2.file = some (encodeUtf8 target.beforeConfig.toList) := by
  unfold finish
  dsimp only
  split <;> rfl

theorem finish_store (store : ConfigRevisions) :
    (finish calls store target current).2.store =
      recordRollback calls store (String.ofList (decodeUtf8 current)) target.beforeConfig := by
  unfold finish
  dsimp only
  split <;> rfl

/-- Nothing is recorded over a file that is no JSON. -/
theorem recordRollback_of_none {file : String} (h : Json.parse file = none)
    (store : ConfigRevisions) (restored : String) :
    recordRollback calls store file restored = store := by
  rw [recordRollback, h]
  rfl

theorem finish_of_parse {applied : Json} (h : Json.parse target.beforeConfig = some applied)
    (store : ConfigRevisions) :
    (finish calls store target current).1.ok = true ∧
      (finish calls store target current).1.revision = some target := by
  unfold finish
  dsimp only
  rw [h]
  exact ⟨rfl, rfl⟩

/-- Behind the write the promise is kept only if the file had the content already. -/
theorem finish_keeps_iff (htoml : RejectsBraces loader.toml) (hfile : rollback.file = some current) :
    (let after := finish calls rollback.store target current
     if after.1.ok then
       ∃ target ∈ after.1.revision, Restores loader rollback after.2 target.beforeConfig
     else after.2.file = rollback.file) ↔
      Json.parse target.beforeConfig = none ∧ encodeUtf8 target.beforeConfig.toList = current := by
  rw [finish]
  dsimp only
  cases hparse : Json.parse target.beforeConfig with
  | none => simp [failed, hfile]
  | some applied =>
      simp only [if_true, Option.mem_some_iff, exists_eq_left', reduceCtorEq, false_and, iff_false]
      exact not_restores htoml rfl

/-- A snapshot that is written is not restored. -/
theorem not_keepsPromise (htoml : RejectsBraces loader.toml)
    (hget : rollback.store.get revisionId = some target) (hsnapshot : target.beforeConfig ≠ "")
    (hread : readFile calls rollback.file = .ok current) (hwrite : calls.writeError = none)
    {applied : Json} (hparse : Json.parse target.beforeConfig = some applied) :
    ¬ KeepsPromise loader calls rollback revisionId := by
  intro hkeeps
  rw [KeepsPromise, rollbackTo_of_written hget hsnapshot hread hwrite] at hkeeps
  have hcontent := (finish_keeps_iff htoml (file_of_readFile hread)).mp hkeeps
  rw [hparse] at hcontent
  cases hcontent.1

/-- A rollback keeps its promise exactly if it leaves the file alone. -/
theorem keepsPromise_iff (htoml : RejectsBraces loader.toml) (calls : Calls)
    (rollback : ConfigRollback) (revisionId : Int) :
    KeepsPromise loader calls rollback revisionId ↔ LeavesFile calls rollback revisionId := by
  unfold KeepsPromise LeavesFile rollbackTo
  cases hget : rollback.store.get revisionId with
  | none => simp [failed]
  | some target =>
      by_cases hempty : target.beforeConfig = ""
      · simp [failed, hempty]
      · simp only [hempty, if_false, Option.mem_some_iff, forall_eq', ne_eq, not_false_eq_true,
          forall_const]
        cases hread : readFile calls rollback.file with
        | error message => simp [failed, Except.toOption]
        | ok current =>
            have hfile := file_of_readFile hread
            simp only [Except.toOption, Option.mem_some_iff, forall_eq']
            cases hwrite : calls.writeError with
            | some failure => simp [failed, hfile]
            | none => exact finish_keeps_iff htoml hfile

/-- A file that sets the port, and its text. -/
def portFile : String := "[daemon]\nport = 9440\n"

/-- The snapshot of another port. -/
def portSnapshot : String := "\x7b\"daemon\":\x7b\"port\":9441\x7d\x7d"

def portRevision : ConfigRevisionRow where
  id := 1
  beforeConfig := portSnapshot
  afterConfig := "\x7b\"daemon\":\x7b\"port\":9440\x7d\x7d"
  changedKeys := "daemon"
  source := .manual
  note := none
  createdAt := "2026-01-01T00:00:00.000Z"

/-- The port has been changed once, and the file has the new one. -/
def portChanged : ConfigRollback where
  store :=
    { rows := [portRevision]
      lastId := 1
      ascending := List.pairwise_singleton _ _
      numbered := by decide }
  file := some (encodeUtf8 portFile.toList)

/-- Calls without a failure. -/
def noFailure : Calls where
  readError := none
  writeError := none
  inserts := true
  now := "2026-01-02T00:00:00.000Z"
  noFile := "ENOENT: no such file or directory"
  syntaxError := fun _ => "Unexpected token"

/-- A parser that reads the file of the port and nothing else. -/
def portLoader : ConfigLoader (List (String × Setting)) where
  toml := fun text =>
    if text = portFile then some [("daemon", .table [("port", .number (.ofInt 9440))])] else none
  defaults := []
  settle := fun settings _ => some settings

theorem portLoader_rejectsBraces : RejectsBraces portLoader.toml := by
  intro text hbrace
  refine if_neg fun htext => ?_
  rw [htext] at hbrace
  exact absurd hbrace (by decide)

def isObject : Json → Bool
  | .object _ => true
  | _ => false

theorem parse_portSnapshot : ∃ fields, Json.parse portSnapshot = some (.object fields) := by
  have hobject : (Json.parse portSnapshot).any isObject = true := by decide +kernel
  generalize Json.parse portSnapshot = parsed at hobject
  cases parsed with
  | none => cases hobject
  | some value =>
      cases value with
      | object fields => exact ⟨fields, rfl⟩
      | _ => cases hobject

theorem parse_portFile : Json.parse portFile = none := by
  have hnone : (Json.parse portFile).isNone = true := by decide +kernel
  exact Option.isNone_iff_eq_none.mp hnone

theorem keepsPromise_iff_portChanged :
    KeepsPromise portLoader noFailure portChanged 2 ∧
      ¬ KeepsPromise portLoader noFailure portChanged 1 := by
  constructor
  · refine (keepsPromise_iff portLoader_rejectsBraces noFailure portChanged 2).mpr ?_
    intro target htarget
    cases htarget
  · have hiff : KeepsPromise portLoader noFailure portChanged 1 ↔
        LeavesFile noFailure portChanged 1 :=
      keepsPromise_iff portLoader_rejectsBraces noFailure portChanged 1
    rw [hiff]
    intro hleaves
    have hnone : Json.parse portSnapshot = none :=
      (hleaves portRevision rfl (by decide) (encodeUtf8 portFile.toList) rfl).1
    obtain ⟨fields, hparse⟩ := parse_portSnapshot
    rw [hnone] at hparse
    cases hparse

/-- The rollback is a success for its caller, nothing has been recorded, and no parser that rejects
braces loads the file any more. -/
theorem rollback_writes_json :
    (rollbackTo noFailure portChanged 1).1.ok = true ∧
      (rollbackTo noFailure portChanged 1).2.store = portChanged.store ∧
      ∀ loader : ConfigLoader (List (String × Setting)), RejectsBraces loader.toml →
        loadConfig loader (rollbackTo noFailure portChanged 1).2.file = none ∧
          ¬ KeepsPromise loader noFailure portChanged 1 := by
  obtain ⟨fields, hsnapshot⟩ := parse_portSnapshot
  have hfinish : rollbackTo noFailure portChanged 1 =
      finish noFailure portChanged.store portRevision (encodeUtf8 portFile.toList) :=
    rollbackTo_of_written rfl (by decide) rfl rfl
  have hparse : Json.parse portRevision.beforeConfig = some (.object fields) := hsnapshot
  refine ⟨?_, ?_, ?_⟩
  · rw [hfinish]
    exact (finish_of_parse hparse portChanged.store).1
  · rw [hfinish, finish_store, decodeUtf8_encodeUtf8, String.ofList_toList,
      recordRollback_of_none parse_portFile]
  · intro loader htoml
    constructor
    · rw [hfinish, finish_file]
      exact loadConfig_snapshot htoml hparse
    · exact not_keepsPromise htoml rfl (by decide) rfl rfl hparse

end ConfigRollback

end ThinkLocal.Config
