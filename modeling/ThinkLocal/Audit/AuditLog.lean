import ThinkLocal.Foundation.Logs
import ThinkLocal.Foundation.Segments
import ThinkLocal.Js.Base64
import ThinkLocal.Js.Date
import ThinkLocal.Js.Utf8

/-!
# The audit log

`AuditLog` of `audit.ts`: the local events form a hash chain in one table, and the events of
peers, without a chain, are in a second one.  The head of the chain is kept in memory and read
back from the table when the log is opened.

Signatures and hashes are of UTF-8 bytes; their scheme is given from outside.
-/

namespace ThinkLocal.Audit

open Foundation Js

/-- An event as it is passed on; null is `none`. -/
structure AuditEvent where
  timestamp : String
  event_type : String
  agent_id : String
  peer_id : Option String
  details : Option String
  entity_type : Option String
  entity_id : Option String
deriving DecidableEq

structure AuditRow where
  id : Nat
  event : AuditEvent
  signature : String
  prev_hash : String
  entry_hash : String
deriving DecidableEq

structure PeerAuditRow where
  id : Nat
  event : AuditEvent
  signature : String
  entry_hash : String
deriving DecidableEq

/-- What the log takes from its platform. -/
structure Crypto where
  /-- `none` where it throws. -/
  signData : String → Bytes → Option Bytes
  /-- `none` where it throws. -/
  verifySignature : String → Bytes → Bytes → Option Bool
  sha256Hex : Bytes → String

/-- The fields in the order of the texts; null counts as the empty text. -/
def AuditEvent.fields (event : AuditEvent) : List String :=
  [event.timestamp, event.event_type, event.agent_id, event.peer_id.getD "",
    event.details.getD "", event.entity_type.getD "", event.entity_id.getD ""]

/-- What is signed. -/
def signedBytes (event : AuditEvent) : Bytes :=
  encodeUtf8 (joinSegments '|' event.fields).toList

/-- What is hashed. -/
def hashedBytes (event : AuditEvent) (signature prevHash : String) : Bytes :=
  encodeUtf8 (joinSegments '|' (event.fields ++ [signature, prevHash])).toList

/-- The tables, in the order of the ids. -/
structure AuditDb where
  events : List AuditRow
  nextId : Nat
  peerEvents : List PeerAuditRow
  nextPeerId : Nat

def AuditDb.empty : AuditDb := ⟨[], 1, [], 1⟩

structure AuditLog where
  db : AuditDb
  privateKeyPem : String
  agentId : String
  lastHash : String

/-- `'0'.repeat(64)`. -/
def GENESIS : String := String.ofList (List.replicate 64 '0')

/-- The links of the local events. -/
def rowLinks : Links AuditRow String := ⟨AuditRow.prev_hash, AuditRow.entry_hash⟩

namespace AuditLog

/-- The constructor. -/
def openLog (db : AuditDb) (privateKeyPem agentId : String) : AuditLog :=
  ⟨db, privateKeyPem, agentId, rowLinks.head GENESIS db.events⟩

structure AppendInput where
  eventType : String
  peerId : Option String
  details : Option String
  entityType : Option String
  entityId : Option String

/-- The event of a call. -/
def eventOf (log : AuditLog) (input : AppendInput) (timestamp : String) : AuditEvent where
  timestamp := timestamp
  event_type := input.eventType
  agent_id := log.agentId
  peer_id := input.peerId
  details := input.details
  entity_type := input.entityType
  entity_id := input.entityId

variable (K : Crypto)

/-- The row of an event at the head of the chain. -/
def nextRow (log : AuditLog) (event : AuditEvent) (sig : Bytes) : AuditRow where
  id := log.db.nextId
  event := event
  signature := toBase64 sig
  prev_hash := log.lastHash
  entry_hash := K.sha256Hex (hashedBytes event (toBase64 sig) log.lastHash)

/-- The result is whether the call returns; `insertFails` is that the database throws. -/
def append (log : AuditLog) (input : AppendInput) (now : Int) (insertFails : Bool) :
    AuditLog × Bool :=
  match toISOString now with
  | none => (log, false)
  | some timestamp =>
      let event := log.eventOf input (String.ofList timestamp)
      match K.signData log.privateKeyPem (signedBytes event) with
      | none => (log, false)
      | some sig =>
          if insertFails then (log, false)
          else
            let row := log.nextRow K event sig
            ({ log with
              db := { log.db with events := log.db.events ++ [row], nextId := log.db.nextId + 1 }
              lastHash := row.entry_hash }, true)

/-- An event of a peer with its signature and hash. -/
structure PeerEvent where
  event : AuditEvent
  signature : String
  entry_hash : String

/-- The signature of an event under a key; an exception counts as an invalid one. -/
def signatureValid (event : PeerEvent) (peerPublicKeyPem : String) : Bool :=
  (K.verifySignature peerPublicKeyPem (signedBytes event.event)
    (fromBase64 event.signature)).getD false

def importPeerEvent (log : AuditLog) (event : PeerEvent) (peerPublicKeyPem : Option String) :
    AuditLog × Bool :=
  if (peerPublicKeyPem.filter fun key => key ≠ "").any fun key => ! signatureValid K event key then
    (log, false)
  else if event.entry_hash ∈ log.db.peerEvents.map PeerAuditRow.entry_hash then (log, false)
  else
    let row : PeerAuditRow :=
      ⟨log.db.nextPeerId, event.event, event.signature, event.entry_hash⟩
    ({ log with
      db := { log.db with
        peerEvents := log.db.peerEvents ++ [row]
        nextPeerId := log.db.nextPeerId + 1 } }, true)

/-- An age of `none` is not finite.  The result is the number of deleted rows; a cutoff without a
text throws. -/
def prunePeerEventsOlderThan (log : AuditLog) (maxAgeMs : Option Int) (now : Int) :
    AuditLog × Option Nat :=
  match maxAgeMs.filter fun age => 0 < age with
  | none => (log, some 0)
  | some age =>
      match toISOString (now - age) with
      | none => (log, none)
      | some cutoff =>
          let kept := log.db.peerEvents.filter fun row =>
            ! textBefore row.event.timestamp.toList cutoff
          ({ log with db := { log.db with peerEvents := kept } },
            some (log.db.peerEvents.length - kept.length))

/-- `ORDER BY id DESC LIMIT ?`. -/
def getEvents (log : AuditLog) (limit : Nat) : List AuditRow := log.db.events.reverse.take limit

/-- The rows of `exportJson` and `exportCsv`. -/
def exportEvents (log : AuditLog) (limit : Option Nat) : AuditLog × List AuditRow :=
  (log, log.getEvents (limit.getD 10000))

/-- The write-ahead log goes into the database. -/
def checkpoint (log : AuditLog) : AuditLog := log

end AuditLog

end ThinkLocal.Audit
