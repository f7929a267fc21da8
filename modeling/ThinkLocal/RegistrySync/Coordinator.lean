import ThinkLocal.Foundation.Arena
import ThinkLocal.Foundation.InsertionMap
import ThinkLocal.Foundation.Machine

/-!
# The registry sync coordinator

`RegistrySyncCoordinator` of `registry-sync-coordinator.ts` as a guarded machine.

JavaScript runs one piece of synchronous code at a time, so an action of the
machine is a maximal piece that runs without an `await`: a call from outside
(`onPeerConnect`, `onMessageFromPeer`, ...), a timer that fires, or the
continuation of an `await` whose promise settled.  The environment chooses the
order, and with what result a `send` settles.

Objects that the source compares or captures by reference have a number.  A
`PeerSyncEntry` stays in `entries` after it left the map `peers`, because the
rounds started on it still hold it.  A round is outstanding in `rounds` from the
call of `runRound` until its outer `finally` block has run; its number also
stands for its promise (`inflight`) and its `AbortController`.

Automerge is a parameter: `SyncRegistry` is what the coordinator calls of it.
-/

namespace ThinkLocal.RegistrySync

open Foundation

/-! ## Data -/

/-- A `Uint8Array`. -/
abbrev Message := List UInt8

abbrev EntryId := Nat

abbrev RoundId := Nat

/-- A value that was thrown, as the `catch` block of a round reads it. -/
inductive Thrown
  | error (name message : String)
  /-- Not an `Error`; `text` is `String(err)`, absent when that conversion throws. -/
  | other (text : Option String)
  deriving DecidableEq, Repr

/-- `err instanceof Error ? err.message : String(err)`. -/
def Thrown.text : Thrown → Option String
  | .error _ message => some message
  | .other text => text

/-- Does the lower-cased text contain the (lower-case ASCII) word? -/
def includesLower (text word : String) : Bool :=
  decide (word.toList <:+: text.toList.map Char.toLower)

/-- The test by which a failed round counts as a timeout. -/
def isAbortLike (aborted : Bool) : Thrown → Bool
  | .error name message =>
      aborted || name == "AbortError" || includesLower message "timeout" ||
        includesLower message "abort"
  | .other _ => aborted

/-- The part of `CapabilityRegistry` that the coordinator calls.  A failed
`receiveSyncMessage` may leave the registry changed. -/
structure SyncRegistry (Registry SyncState : Type*) where
  initSyncState : SyncState
  generateSyncMessage : Registry → SyncState → Except Thrown (SyncState × Option Message)
  receiveSyncMessage : Registry → SyncState → Message → Registry × Except Thrown SyncState

structure RegistrySyncCoordinatorOptions (Registry SyncState : Type*) where
  registry : SyncRegistry Registry SyncState
  hangUpThreshold : Nat := 3

def maxBufferedMessages : Nat := 16

def maxBufferedBytes : Nat := 16 * 1024 * 1024

structure PeerSyncEntry (SyncState : Type*) where
  state : SyncState
  inflight : Option RoundId
  abortController : Option RoundId
  generation : Nat
  inboundBuffer : List Message
  inboundBufferBytes : Nat
  consecutiveTimeouts : Nat
  lastRoundAt : Option Nat
  lastError : Option String
  rounds : Nat
  converged : Bool

/-- Where an outstanding round stands: before the `await` of `send` or of
`hangUp`, or at its end with the outer `finally` still to run. -/
inductive Phase
  | sending (message : Message)
  | hangingUp
  | finished (rejected : Bool)
  deriving DecidableEq, Repr

/-- The local variables of a `runRound` call and the state of its `AbortController`. -/
structure Round where
  peerId : String
  entry : EntryId
  generation : Nat
  aborted : Bool
  phase : Phase
  deriving DecidableEq, Repr

/-- A call of `onMessageFromPeer` that awaits `hangUp` after an overflow.
`created` is the number of entries that existed when it overflowed. -/
structure Overflow where
  peerId : String
  entry : EntryId
  created : Nat
  deriving DecidableEq, Repr

/-- What happened to an entry so far.  Not part of the program: the claims
speak of messages accepted, handed over, produced and delivered in the past. -/
structure History where
  /-- Taken by `onMessageFromPeer` for this entry, in arrival order. -/
  accepted : List Message := []
  /-- Passed to `receiveSyncMessage` with this entry's state, in call order. -/
  handed : List Message := []
  /-- Returned by `generateSyncMessage` for this entry, with the round. -/
  produced : List (RoundId × Message) := []
  /-- Passed to a `send` that resolved. -/
  delivered : List (RoundId × Message) := []
  /-- Passed to a `send` that rejected. -/
  failed : List (RoundId × Message) := []
  deriving DecidableEq, Repr

structure State (Registry SyncState : Type*) where
  registry : Registry
  peers : InsertionMap String EntryId
  entries : EntryId → PeerSyncEntry SyncState
  nextEntry : EntryId
  rounds : Arena Round
  /-- `tickTimer`, and the timers that are armed. -/
  tickTimer : Option Nat
  timers : Arena Unit
  /-- The rounds that each running `tick` still awaits. -/
  ticks : Arena (List RoundId)
  overflows : Arena Overflow
  /-- The `inflight` promises that each running `stop` awaits. -/
  stops : Arena (List RoundId)
  /-- The peers of the queued follow-up rounds. -/
  microtasks : List String
  stopped : Bool
  /-- Was `start` called? -/
  started : Bool
  now : Nat
  history : EntryId → History

variable {Registry SyncState : Type*}

/-! ## Entries and rounds -/

/-- `createPeerEntry`. -/
def createPeerEntry (opts : RegistrySyncCoordinatorOptions Registry SyncState)
    (previous : Option (PeerSyncEntry SyncState)) : PeerSyncEntry SyncState where
  state := opts.registry.initSyncState
  inflight := none
  abortController := none
  generation := (previous.map (·.generation)).getD 0 + 1
  inboundBuffer := []
  inboundBufferBytes := 0
  consecutiveTimeouts := 0
  lastRoundAt := none
  lastError := none
  rounds := 0
  converged := false

/-- The `catch` block of a round up to its `await`: the entry it leaves and
where the round goes on. -/
def catchRound (opts : RegistrySyncCoordinatorOptions Registry SyncState) (aborted : Bool)
    (err : Thrown) (entry : PeerSyncEntry SyncState) : PeerSyncEntry SyncState × Phase :=
  match err.text with
  | none => (entry, .finished true)
  | some msg =>
      let entry := { entry with lastError := some msg }
      if isAbortLike aborted err then
        let entry := { entry with consecutiveTimeouts := entry.consecutiveTimeouts + 1 }
        if opts.hangUpThreshold ≤ entry.consecutiveTimeouts then (entry, .hangingUp)
        else (entry, .finished false)
      else (entry, .finished false)

/-- The synchronous part of the `try` block of a round. -/
def roundBody (opts : RegistrySyncCoordinatorOptions Registry SyncState) (registry : Registry)
    (now : Nat) (entry : PeerSyncEntry SyncState) : PeerSyncEntry SyncState × Phase :=
  match opts.registry.generateSyncMessage registry entry.state with
  | .ok (nextState, none) =>
      ({ entry with
          state := nextState
          converged := true
          lastError := none
          lastRoundAt := some now
          rounds := entry.rounds + 1 }, .finished false)
  | .ok (nextState, some message) =>
      ({ entry with state := nextState, converged := false }, .sending message)
  | .error err => catchRound opts false err entry

/-- The `try` block of a round after its `send` resolved. -/
def afterSend (now : Nat) (entry : PeerSyncEntry SyncState) : PeerSyncEntry SyncState :=
  { entry with
    consecutiveTimeouts := 0
    lastError := none
    lastRoundAt := some now
    rounds := entry.rounds + 1 }

/-- The history of an entry on which a round started. -/
def History.produce (h : History) (round : RoundId) : Phase → History
  | .sending message => { h with produced := h.produced ++ [(round, message)] }
  | _ => h

namespace State

/-- Changes one entry object. -/
def modifyEntry (s : State Registry SyncState) (e : EntryId)
    (f : PeerSyncEntry SyncState → PeerSyncEntry SyncState) : State Registry SyncState :=
  { s with entries := Function.update s.entries e (f (s.entries e)) }

/-- Changes the history of one entry. -/
def record (s : State Registry SyncState) (e : EntryId) (f : History → History) :
    State Registry SyncState :=
  { s with history := Function.update s.history e (f (s.history e)) }

/-- `controller?.abort(...)`. -/
def abort (s : State Registry SyncState) : Option RoundId → State Registry SyncState
  | none => s
  | some r => { s with rounds := s.rounds.modify r fun round => { round with aborted := true } }

/-- `peers.set(peerId, createPeerEntry(previous))`; the new entry has the number
`nextEntry` and no history. -/
def addPeerEntry (opts : RegistrySyncCoordinatorOptions Registry SyncState)
    (s : State Registry SyncState) (peerId : String)
    (previous : Option (PeerSyncEntry SyncState)) : State Registry SyncState :=
  { s with
    peers := s.peers.set peerId s.nextEntry
    entries := Function.update s.entries s.nextEntry (createPeerEntry opts previous)
    nextEntry := s.nextEntry + 1
    history := Function.update s.history s.nextEntry {} }

/-- `peers.delete(peerId)`. -/
def deletePeer (s : State Registry SyncState) (peerId : String) : State Registry SyncState :=
  { s with peers := s.peers.delete peerId }

end State

/-! ## `runRound` -/

/-- `runRound` past its guards, up to its first `await`. -/
def startRound (opts : RegistrySyncCoordinatorOptions Registry SyncState)
    (s : State Registry SyncState) (peerId : String) (e : EntryId) : State Registry SyncState :=
  let round := s.rounds.next
  let body := roundBody opts s.registry s.now (s.entries e)
  { s with
    entries := Function.update s.entries e
      { body.1 with inflight := some round, abortController := some round }
    rounds := s.rounds.alloc
      { peerId := peerId
        entry := e
        generation := (s.entries e).generation
        aborted := false
        phase := body.2 }
    history := Function.update s.history e ((s.history e).produce round body.2) }

/-- `runRound` up to its first `await`, and the round it started, if any. -/
def runRound (opts : RegistrySyncCoordinatorOptions Registry SyncState)
    (s : State Registry SyncState) (peerId : String) :
    State Registry SyncState × Option RoundId :=
  if s.stopped then (s, none)
  else
    match s.peers.get peerId with
    | none => (s, none)
    | some e =>
        if (s.entries e).inflight.isSome then (s, none)
        else (startRound opts s peerId e, some s.rounds.next)

/-- `peerIds.map((peerId) => this.runRound(peerId))`. -/
def runRounds (opts : RegistrySyncCoordinatorOptions Registry SyncState) :
    State Registry SyncState → List String → State Registry SyncState × List RoundId
  | s, [] => (s, [])
  | s, peerId :: rest =>
      let first := runRound opts s peerId
      let others := runRounds opts first.1 rest
      (others.1, first.2.toList ++ others.2)

/-- The `for` loop of the drain: the registry and the entry state it leaves, the
messages it handed over, and whether the last of these threw. -/
structure Drained (Registry SyncState : Type*) where
  registry : Registry
  state : SyncState
  handed : List Message
  threw : Bool

def drain (reg : SyncRegistry Registry SyncState) :
    Registry → SyncState → List Message → Drained Registry SyncState
  | registry, state, [] => ⟨registry, state, [], false⟩
  | registry, state, msg :: rest =>
      match reg.receiveSyncMessage registry state msg with
      | (registry', .ok nextState) =>
          let tail := drain reg registry' nextState rest
          { tail with handed := msg :: tail.handed }
      | (registry', .error _) => ⟨registry', state, [msg], true⟩

/-- Tells every `tick` that awaits the round that its promise settled: a
rejection rejects the `tick`, which then never resumes. -/
def settleTicks (s : State Registry SyncState) (r : RoundId) (rejected : Bool) :
    State Registry SyncState :=
  { s with
    ticks := s.ticks.filterMap fun pending =>
      if r ∈ pending then
        if rejected then none else some (pending.filter (· ≠ r))
      else some pending }

/-- The part of the outer `finally` block for a current entry of the round's
generation: clear the entry, then drain its buffer.  Returns whether a message threw. -/
def drainEntry (opts : RegistrySyncCoordinatorOptions Registry SyncState)
    (s : State Registry SyncState) (peerId : String) (e : EntryId) :
    State Registry SyncState × Bool :=
  let s := s.modifyEntry e fun entry =>
    { entry with inflight := none, abortController := none }
  -- The buffer is read before `stopped` is looked at, as the source does.
  let messages := (s.entries e).inboundBuffer
  if messages ≠ [] ∧ s.stopped = false then
    let drained := drain opts.registry s.registry (s.entries e).state messages
    let s := { s with registry := drained.registry }
    let s := s.modifyEntry e fun entry =>
      { entry with state := drained.state, inboundBuffer := [], inboundBufferBytes := 0 }
    let s := s.record e fun h => { h with handed := h.handed ++ drained.handed }
    -- A message that throws loses the follow-up round along with the rest of the batch.
    if drained.threw then (s, true)
    else ({ s with microtasks := s.microtasks ++ [peerId] }, false)
  else (s, false)

/-- The outer `finally` block of a round and the settling of its promise. -/
def finishRound (opts : RegistrySyncCoordinatorOptions Registry SyncState)
    (s : State Registry SyncState) (r : RoundId) (round : Round) (rejected : Bool) :
    State Registry SyncState :=
  let s := { s with rounds := s.rounds.free r }
  match s.peers.get round.peerId with
  | none => settleTicks s r rejected
  | some current =>
      -- The current entry may be a later one of the same peer, but never of another generation.
      if (s.entries current).generation = round.generation then
        let result := drainEntry opts s round.peerId current
        settleTicks result.1 r (rejected || result.2)
      else settleTicks s r rejected

/-! ## The timer -/

/-- `scheduleNextTick`. -/
def scheduleNextTick (s : State Registry SyncState) : State Registry SyncState :=
  if s.stopped then s
  else { s with timers := s.timers.alloc (), tickTimer := some s.timers.next }

/-- `tick` up to its `await`. -/
def tick (opts : RegistrySyncCoordinatorOptions Registry SyncState)
    (s : State Registry SyncState) : State Registry SyncState :=
  let started := runRounds opts s s.peers.keys
  { started.1 with ticks := started.1.ticks.alloc started.2 }

/-! ## Calls from outside -/

/-- `start`.  After `stop` it throws and changes nothing. -/
def start (s : State Registry SyncState) : State Registry SyncState :=
  if s.stopped then s
  else if s.tickTimer.isSome then { s with started := true }
  else scheduleNextTick { s with started := true }

/-- Aborts the running rounds of a list of entries. -/
def abortAll (s : State Registry SyncState) : List EntryId → State Registry SyncState
  | [] => s
  | e :: rest => abortAll (s.abort (s.entries e).abortController) rest

/-- `stop` up to its `await`. -/
def stop (s : State Registry SyncState) : State Registry SyncState :=
  let s := { s with
    stopped := true
    -- `clearTimeout` only knows the timer that was armed last.
    timers := match s.tickTimer with
      | none => s.timers
      | some t => s.timers.free t
    tickTimer := none }
  let s := abortAll s s.peers.values
  { s with stops := s.stops.alloc (s.peers.values.filterMap fun e => (s.entries e).inflight) }

/-- `onPeerConnect` before its round: the running round of the previous entry is
aborted and a new entry takes its place. -/
def replaceEntry (opts : RegistrySyncCoordinatorOptions Registry SyncState)
    (s : State Registry SyncState) (peerId : String) : State Registry SyncState :=
  match s.peers.get peerId with
  | none => s.addPeerEntry opts peerId none
  | some e =>
      (s.abort (s.entries e).abortController).addPeerEntry opts peerId (some (s.entries e))

/-- `onPeerConnect`. -/
def onPeerConnect (opts : RegistrySyncCoordinatorOptions Registry SyncState)
    (s : State Registry SyncState) (peerId : String) : State Registry SyncState :=
  if s.stopped then s else (runRound opts (replaceEntry opts s peerId) peerId).1

/-- `onPeerDisconnect`. -/
def onPeerDisconnect (s : State Registry SyncState) (peerId : String) :
    State Registry SyncState :=
  match s.peers.get peerId with
  | none => s
  | some e => (s.abort (s.entries e).abortController).deletePeer peerId

/-- The entry that a message is for, created if the peer is unknown. -/
def entryFor (opts : RegistrySyncCoordinatorOptions Registry SyncState)
    (s : State Registry SyncState) (peerId : String) : State Registry SyncState × EntryId :=
  match s.peers.get peerId with
  | some e => (s, e)
  | none => (s.addPeerEntry opts peerId none, s.nextEntry)

/-- A message that does not fit into the buffer is refused: the round is aborted
and the peer hung up. -/
def refuseMessage (s : State Registry SyncState) (peerId : String) (e : EntryId) :
    State Registry SyncState :=
  let s := s.modifyEntry e fun entry =>
    { entry with lastError := some "inbound sync buffer overflow" }
  let s := s.abort (s.entries e).abortController
  { s with overflows := s.overflows.alloc ⟨peerId, e, s.nextEntry⟩ }

/-- A message that fits is buffered. -/
def pushMessage (s : State Registry SyncState) (e : EntryId) (message : Message) :
    State Registry SyncState :=
  let s := s.modifyEntry e fun entry =>
    { entry with
      inboundBuffer := entry.inboundBuffer ++ [message]
      inboundBufferBytes := entry.inboundBufferBytes + message.length }
  s.record e fun h => { h with accepted := h.accepted ++ [message] }

/-- Would the buffer of the entry overflow? -/
def overflows (entry : PeerSyncEntry SyncState) (message : Message) : Bool :=
  maxBufferedMessages ≤ entry.inboundBuffer.length ||
    maxBufferedBytes < entry.inboundBufferBytes + message.length

/-- A message that arrives during a round. -/
def bufferMessage (s : State Registry SyncState) (peerId : String) (e : EntryId)
    (message : Message) : State Registry SyncState :=
  if overflows (s.entries e) message then refuseMessage s peerId e else pushMessage s e message

/-- A message that arrives between rounds: handed to the registry at once.
Returns whether `receiveSyncMessage` returned. -/
def handOver (opts : RegistrySyncCoordinatorOptions Registry SyncState)
    (s : State Registry SyncState) (e : EntryId) (message : Message) :
    State Registry SyncState × Bool :=
  let s := s.record e fun h =>
    { h with accepted := h.accepted ++ [message], handed := h.handed ++ [message] }
  match opts.registry.receiveSyncMessage s.registry (s.entries e).state message with
  | (registry, .ok nextState) =>
      ({ s with registry := registry }.modifyEntry e fun entry =>
        { entry with state := nextState }, true)
  | (registry, .error _) => ({ s with registry := registry }, false)

/-- `onMessageFromPeer` up to its `await`. -/
def onMessageFromPeer (opts : RegistrySyncCoordinatorOptions Registry SyncState)
    (s : State Registry SyncState) (peerId : String) (message : Message) :
    State Registry SyncState :=
  if s.stopped then s
  else
    let found := entryFor opts s peerId
    if (found.1.entries found.2).inflight.isSome then
      bufferMessage found.1 peerId found.2 message
    else
      let received := handOver opts found.1 found.2 message
      if received.2 then (runRound opts received.1 peerId).1 else received.1

/-- `republish`. -/
def republish (opts : RegistrySyncCoordinatorOptions Registry SyncState)
    (s : State Registry SyncState) : State Registry SyncState :=
  if s.stopped then s else (runRounds opts s s.peers.keys).1

/-! ## The machine -/

inductive Action (Registry : Type*)
  | start
  | stop
  | connect (peerId : String)
  | disconnect (peerId : String)
  | message (peerId : String) (message : Message)
  | republish
  /-- An armed tick timer fires. -/
  | timerFires (timer : Nat)
  /-- All rounds of a `tick` resolved and it goes on. -/
  | tickResumes (tick : Nat)
  /-- The oldest queued follow-up round runs. -/
  | microtask
  /-- The `roundTimeoutMs` timer of a round fires. -/
  | roundTimeout (round : RoundId)
  /-- The awaited `send` resolves (`none`) or rejects. -/
  | sendSettles (round : RoundId) (result : Option Thrown)
  /-- The awaited `hangUp` of a round settles. -/
  | hangUpSettles (round : RoundId)
  /-- The outer `finally` block of a round runs. -/
  | roundFinishes (round : RoundId)
  /-- The awaited `hangUp` of an overflow settles. -/
  | overflowSettles (overflow : Nat)
  /-- The rounds that `stop` awaits settled. -/
  | stopResumes (stop : Nat)
  /-- Someone else changes the registry. -/
  | registryChanges (registry : Registry)
  /-- Time passes. -/
  | timePasses (ms : Nat)

/-- The continuation of a round after its `send` settled. -/
def sendSettles (opts : RegistrySyncCoordinatorOptions Registry SyncState)
    (s : State Registry SyncState) (r : RoundId) (round : Round) (message : Message)
    (result : Option Thrown) : State Registry SyncState :=
  match result with
  | none =>
      let s := s.modifyEntry round.entry (afterSend s.now)
      let s := { s with
        rounds := s.rounds.modify r fun round => { round with phase := .finished false } }
      s.record round.entry fun h => { h with delivered := h.delivered ++ [(r, message)] }
  | some err =>
      let caught := catchRound opts round.aborted err (s.entries round.entry)
      let s := s.modifyEntry round.entry fun _ => caught.1
      let s := { s with rounds := s.rounds.modify r fun round => { round with phase := caught.2 } }
      s.record round.entry fun h => { h with failed := h.failed ++ [(r, message)] }

/-- The continuation of a round after its `hangUp` settled. -/
def hangUpSettles (s : State Registry SyncState) (r : RoundId) (round : Round) :
    State Registry SyncState :=
  let s := { s with
    rounds := s.rounds.modify r fun round => { round with phase := .finished false } }
  match s.peers.get round.peerId with
  | none => s
  | some current =>
      if (s.entries current).generation = round.generation then s.deletePeer round.peerId else s

/-- Has the promise of the round's body settled? -/
def isSettled (s : State Registry SyncState) (r : RoundId) : Bool :=
  match s.rounds.get r with
  | none => true
  | some round =>
      match round.phase with
      | .finished _ => true
      | _ => false

def step (opts : RegistrySyncCoordinatorOptions Registry SyncState)
    (s : State Registry SyncState) : Action Registry → Option (State Registry SyncState)
  | .start => some (start s)
  | .stop => some (stop s)
  | .connect peerId => some (onPeerConnect opts s peerId)
  | .disconnect peerId => some (onPeerDisconnect s peerId)
  | .message peerId message => some (onMessageFromPeer opts s peerId message)
  | .republish => some (republish opts s)
  | .timerFires t =>
      match s.timers.get t with
      | none => none
      | some () => some (tick opts { s with timers := s.timers.free t, tickTimer := none })
  | .tickResumes t =>
      match s.ticks.get t with
      | some [] => some (scheduleNextTick { s with ticks := s.ticks.free t })
      | _ => none
  | .microtask =>
      match s.microtasks with
      | [] => none
      | peerId :: rest => some (runRound opts { s with microtasks := rest } peerId).1
  | .roundTimeout r =>
      match s.rounds.get r with
      | none => none
      | some round =>
          match round.phase with
          | .finished _ => none
          | _ => some (s.abort (some r))
  | .sendSettles r result =>
      match s.rounds.get r with
      | none => none
      | some round =>
          match round.phase with
          | .sending message => some (sendSettles opts s r round message result)
          | _ => none
  | .hangUpSettles r =>
      match s.rounds.get r with
      | none => none
      | some round =>
          match round.phase with
          | .hangingUp => some (hangUpSettles s r round)
          | _ => none
  | .roundFinishes r =>
      match s.rounds.get r with
      | none => none
      | some round =>
          match round.phase with
          | .finished rejected => some (finishRound opts s r round rejected)
          | _ => none
  | .overflowSettles o =>
      match s.overflows.get o with
      | none => none
      | some overflow =>
          -- The entry is deleted by its id, whatever entry is there by now.
          some ({ s with overflows := s.overflows.free o }.deletePeer overflow.peerId)
  | .stopResumes k =>
      match s.stops.get k with
      | none => none
      | some pending =>
          if pending.all (isSettled s) then
            some { s with stops := s.stops.free k, peers := .empty }
          else none
  | .registryChanges registry => some { s with registry := registry }
  | .timePasses ms => some { s with now := s.now + ms }

/-- A fresh coordinator over a registry. -/
def initialState (opts : RegistrySyncCoordinatorOptions Registry SyncState)
    (registry : Registry) : State Registry SyncState where
  registry := registry
  peers := .empty
  entries _ := createPeerEntry opts none
  nextEntry := 0
  rounds := .empty
  tickTimer := none
  timers := .empty
  ticks := .empty
  overflows := .empty
  stops := .empty
  microtasks := []
  stopped := false
  started := false
  now := 0
  history _ := {}

/-- One coordinator: every order of calls, timers and settlements. -/
def coordinator (opts : RegistrySyncCoordinatorOptions Registry SyncState)
    (registry : Registry) : Machine (State Registry SyncState) (Action Registry) where
  init := initialState opts registry
  step := step opts

/-! ## A registry for concrete runs -/

/-- A registry whose document is a number of changes.  The sync state is the
number sent last, if nothing was received since; the message `[0]` does not decode. -/
def changeCounter : SyncRegistry Nat (Option Nat) where
  initSyncState := none
  generateSyncMessage changes sent :=
    .ok (some changes, if sent = some changes then none else some [1])
  receiveSyncMessage changes _ message :=
    (changes, if message = [0] then .error (.error "RangeError" "invalid message") else .ok none)

def counterOptions : RegistrySyncCoordinatorOptions Nat (Option Nat) where
  registry := changeCounter

end ThinkLocal.RegistrySync
