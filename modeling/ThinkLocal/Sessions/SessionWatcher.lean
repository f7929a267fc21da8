import ThinkLocal.Foundation.Arena
import ThinkLocal.Foundation.Machine
import ThinkLocal.Js.Utf8
import ThinkLocal.Sessions.ClaudeCodeAdapter

/-!
# The session watcher

`session-watcher.ts` for one instance.  A call of `tick` waits for the one run that is in the map
when it is made, and then starts a run of its own, whatever else has been started in the meantime.
A run reads `state.json`, looks at the size of the session file, reads the new bytes, appends the
events of their complete lines to the store without waiting for anything, and writes `state.json`.

The process can end at any time, also between two of the events that are appended.  What it leaves
are the file, the store and `state.json`, which is replaced as a whole.
-/

namespace ThinkLocal.Sessions

open Foundation Js

/-! ## The store -/

/-- The rows of the instance, in the order of their ids. -/
structure SessionEventsStore where
  rows : List SessionEventInput
  seqs : (rows.map SessionEventInput.seq).Nodup

namespace SessionEventsStore

def empty : SessionEventsStore := ⟨[], List.nodup_nil⟩

/-- `INSERT OR IGNORE`; the result is whether there is a new row. -/
def append (store : SessionEventsStore) (input : SessionEventInput) : SessionEventsStore × Bool :=
  if h : input.seq ∈ store.rows.map SessionEventInput.seq then (store, false)
  else
    ({ rows := store.rows ++ [input]
       seqs := by
        rw [List.map_append]
        exact store.seqs.append (List.nodup_singleton _) (by simpa using h) }, true)

/-- `MAX(seq)`, or -1 if there is none. -/
def latestSeq (store : SessionEventsStore) : Int :=
  store.rows.foldl (fun latest row => max latest row.seq) (-1)

/-- The loop over the events of a run, with the number of new rows. -/
def appendAll (store : SessionEventsStore) (instanceUuid : String) :
    List SessionEventInput → SessionEventsStore × Nat
  | [] => (store, 0)
  | ev :: rest =>
      let (store, inserted) := store.append { ev with event := { ev.event with instanceUuid } }
      let (store, ingested) := store.appendAll instanceUuid rest
      (store, ingested + if inserted then 1 else 0)

end SessionEventsStore

/-! ## The state -/

/-- What a run changes of `state.json`. -/
structure SessionState where
  tailOffset : Nat
  lastHeartbeat : Int
  historyVersion : Nat
deriving DecidableEq

/-- How far a run of `tickInternal` is. -/
inductive Phase
  /-- `state.json` is being read. -/
  | started (input : SessionState)
  | ready (state : SessionState)
  /-- There are new bytes, which are being read. -/
  | sized (state : SessionState) (size : Nat)
  | loaded (state : SessionState) (size : Nat) (bytes : Bytes)
  /-- `state.json` is being written. -/
  | appended (next : SessionState) (size ingested : Nat)
  /-- `onEventsIngested` may be running. -/
  | written (next : SessionState) (size ingested : Nat)

structure SessionWatcher where
  file : Bytes
  store : SessionEventsStore
  persisted : Option SessionState
  runs : Arena Phase
  /-- The run in the map. -/
  inflight : Option Nat
  /-- Calls of `tick` with the run that they wait for. -/
  waiting : Arena (Nat × SessionState)
  /-- The sizes of the file that the runs have found which ended with a result.  Not part of the
  program. -/
  observed : List Nat

/-- What a watcher is made with, and the instance. -/
structure SessionWatcherOptions where
  parseBuffer : List Char → Nat → List SessionEventInput
  instanceUuid : String

namespace SessionWatcher

/-- A call goes on and starts its run. -/
def startRun (w : SessionWatcher) (input : SessionState) : SessionWatcher :=
  { w with runs := w.runs.alloc (.started input), inflight := some w.runs.next }

/-- A run ends, and the slot of the map is cleared if it is its own. -/
def endRun (w : SessionWatcher) (run : Nat) : SessionWatcher :=
  { w with
    runs := w.runs.free run
    inflight := if w.inflight = some run then none else w.inflight }

/-- A run ends with a result. -/
def resolveRun (w : SessionWatcher) (run size : Nat) : SessionWatcher :=
  { w.endRun run with observed := size :: w.observed }

def setPhase (w : SessionWatcher) (run : Nat) (phase : Phase) : SessionWatcher :=
  { w with runs := w.runs.modify run fun _ => phase }

/-- The process ends and is started again. -/
def restart (w : SessionWatcher) : SessionWatcher :=
  { w with
    runs := w.runs.filterMap fun _ => none
    inflight := none
    waiting := w.waiting.filterMap fun _ => none }

variable (opts : SessionWatcherOptions)

/-- The events of complete lines, numbered after the latest one. -/
def parsed (w : SessionWatcher) (complete : List Char) : List SessionEventInput :=
  opts.parseBuffer complete (w.store.latestSeq + 1).toNat

/-- What a run does without waiting once it has its bytes. -/
def appendEvents (w : SessionWatcher) (run : Nat) (state : SessionState) (size : Nat) (bytes : Bytes)
    (now : Int) : SessionWatcher :=
  let complete := completeLines '\n' (decodeUtf8 bytes)
  if complete = [] then w.resolveRun run size
  else
    let (store, ingested) := w.store.appendAll opts.instanceUuid (w.parsed opts complete)
    let next : SessionState :=
      { tailOffset := state.tailOffset + byteLength complete
        lastHeartbeat := now
        historyVersion :=
          if 0 < ingested then state.historyVersion + 1 else state.historyVersion }
    { w.setPhase run (.appended next size ingested) with store }

end SessionWatcher

/-! ## The steps -/

inductive Action
  /-- The CLI writes to the session file. -/
  | grow (bytes : Bytes)
  | tick (input : SessionState)
  | resume (call : Nat)
  | read (run : Nat) (fails : Bool)
  | stat (run : Nat) (fails : Bool)
  | load (run : Nat) (fails : Bool)
  | append (run : Nat) (now : Int)
  | write (run : Nat) (fails : Bool)
  | finish (run : Nat)
  | crash
  /-- The process ends after the first events of a run have been appended. -/
  | crashAppending (run count : Nat)

open SessionWatcher

/-- The new bytes of a file. -/
def newBytes (file : Bytes) (state : SessionState) (size : Nat) : Bytes :=
  (file.drop state.tailOffset).take (size - state.tailOffset)

def step (opts : SessionWatcherOptions) (w : SessionWatcher) : Action → Option SessionWatcher
  | .grow bytes => some { w with file := w.file ++ bytes }
  | .tick input =>
      match w.inflight with
      | none => some (w.startRun input)
      | some prior => some { w with waiting := w.waiting.alloc (prior, input) }
  | .resume call =>
      match w.waiting.get call with
      | some (prior, input) =>
          if w.runs.get prior = none then
            some ({ w with waiting := w.waiting.free call }.startRun input)
          else none
      | none => none
  | .read run fails =>
      match w.runs.get run with
      | some (.started input) =>
          let persisted := if fails then none else w.persisted
          some (w.setPhase run (.ready (persisted.getD input)))
      | _ => none
  | .stat run fails =>
      match w.runs.get run with
      | some (.ready state) =>
          if fails then some (w.endRun run)
          else if w.file.length ≤ state.tailOffset then some (w.resolveRun run w.file.length)
          else some (w.setPhase run (.sized state w.file.length))
      | _ => none
  | .load run fails =>
      match w.runs.get run with
      | some (.sized state size) =>
          if fails then some (w.endRun run)
          else some (w.setPhase run (.loaded state size (newBytes w.file state size)))
      | _ => none
  | .append run now =>
      match w.runs.get run with
      | some (.loaded state size bytes) => some (w.appendEvents opts run state size bytes now)
      | _ => none
  | .write run fails =>
      match w.runs.get run with
      | some (.appended next size ingested) =>
          if fails then some (w.endRun run)
          else some { w.setPhase run (.written next size ingested) with persisted := some next }
      | _ => none
  | .finish run =>
      match w.runs.get run with
      | some (.written _ size _) => some (w.resolveRun run size)
      | _ => none
  | .crash => some w.restart
  | .crashAppending run count =>
      match w.runs.get run with
      | some (.loaded _ _ bytes) =>
          let events := w.parsed opts (completeLines '\n' (decodeUtf8 bytes))
          if 0 < count ∧ count ≤ events.length then
            some
              { w.restart with store := (w.store.appendAll opts.instanceUuid (events.take count)).1 }
          else none
      | _ => none

end ThinkLocal.Sessions
