import ThinkLocal.Audit.AuditLog

/-!
# The chain of the local events

Calls of the audit log in any order, with failures of the signature and of the database, and
with the log opened anew on its database.  The head in memory is moved only after a row has been
inserted, so it is the hash of the last row at all times.
-/

namespace ThinkLocal.Audit

open Foundation Js AuditLog

inductive AuditCall
  | append (input : AppendInput) (now : Int) (insertFails : Bool)
  | importPeerEvent (event : PeerEvent) (peerPublicKeyPem : Option String)
  | prunePeerEventsOlderThan (maxAgeMs : Option Int) (now : Int)
  | exportEvents (limit : Option Nat)
  | checkpoint
  /-- The log is closed, or its process ends, and it is opened on the same database. -/
  | reopen (privateKeyPem agentId : String)

variable (K : Crypto)

def applyCall (log : AuditLog) : AuditCall → AuditLog
  | .append input now insertFails => (log.append K input now insertFails).1
  | .importPeerEvent event peerPublicKeyPem => (log.importPeerEvent K event peerPublicKeyPem).1
  | .prunePeerEventsOlderThan maxAgeMs now => (log.prunePeerEventsOlderThan maxAgeMs now).1
  | .exportEvents limit => (log.exportEvents limit).1
  | .checkpoint => log.checkpoint
  | .reopen privateKeyPem agentId => openLog log.db privateKeyPem agentId

/-- The log after calls from an empty database on. -/
def runCalls (privateKeyPem agentId : String) (calls : List AuditCall) : AuditLog :=
  calls.foldl (applyCall K) (openLog .empty privateKeyPem agentId)

/-- The hash of a row is that of its own fields. -/
def Sealed (row : AuditRow) : Prop :=
  row.entry_hash = K.sha256Hex (hashedBytes row.event row.signature row.prev_hash)

/-- The rows form a chain with ascending ids, whose head is in memory. -/
structure ChainKept (log : AuditLog) : Prop where
  chained : rowLinks.Chained GENESIS log.db.events
  hashes : ∀ row ∈ log.db.events, Sealed K row
  ascending : (log.db.events.map AuditRow.id).Pairwise (· < ·)
  below : ∀ row ∈ log.db.events, row.id < log.db.nextId
  head : log.lastHash = rowLinks.head GENESIS log.db.events

variable {K} {log : AuditLog}

/-! ## One call -/

/-- An append adds the next row or changes nothing. -/
theorem append_cases (input : AppendInput) (now : Int) (insertFails : Bool) :
    (log.append K input now insertFails).1 = log ∨ ∃ event sig,
      (log.append K input now insertFails).1 =
        { log with
          db := { log.db with
            events := log.db.events ++ [log.nextRow K event sig]
            nextId := log.db.nextId + 1 }
          lastHash := (log.nextRow K event sig).entry_hash } := by
  unfold AuditLog.append
  split
  case h_1 => exact .inl rfl
  case h_2 =>
    dsimp only
    split
    case h_1 => exact .inl rfl
    case h_2 =>
      split
      case isTrue => exact .inl rfl
      case isFalse => exact .inr ⟨_, _, rfl⟩

theorem importPeerEvent_events (event : PeerEvent) (peerPublicKeyPem : Option String) :
    ∃ peerEvents nextPeerId, (log.importPeerEvent K event peerPublicKeyPem).1 =
      { log with db := { log.db with peerEvents := peerEvents, nextPeerId := nextPeerId } } := by
  unfold AuditLog.importPeerEvent
  split
  case isTrue => exact ⟨_, _, rfl⟩
  case isFalse => split <;> exact ⟨_, _, rfl⟩

theorem prunePeerEvents_events (maxAgeMs : Option Int) (now : Int) :
    ∃ peerEvents nextPeerId, (log.prunePeerEventsOlderThan maxAgeMs now).1 =
      { log with db := { log.db with peerEvents := peerEvents, nextPeerId := nextPeerId } } := by
  unfold AuditLog.prunePeerEventsOlderThan
  split
  case h_1 => exact ⟨_, _, rfl⟩
  case h_2 =>
    dsimp only
    split <;> exact ⟨_, _, rfl⟩

/-- What a call does to the chain: it adds the next row, opens the log anew or leaves the chain
alone. -/
theorem applyCall_cases (log : AuditLog) (call : AuditCall) :
    (∃ event sig, applyCall K log call =
      { log with
        db := { log.db with
          events := log.db.events ++ [log.nextRow K event sig]
          nextId := log.db.nextId + 1 }
        lastHash := (log.nextRow K event sig).entry_hash }) ∨
      (∃ privateKeyPem agentId, applyCall K log call = openLog log.db privateKeyPem agentId) ∨
      ∃ peerEvents nextPeerId, applyCall K log call =
        { log with db := { log.db with peerEvents := peerEvents, nextPeerId := nextPeerId } } := by
  cases call with
  | append input now insertFails =>
      rcases append_cases input now insertFails with hsame | hrow
      · exact .inr (.inr ⟨log.db.peerEvents, log.db.nextPeerId, hsame⟩)
      · exact .inl hrow
  | importPeerEvent event key => exact .inr (.inr (importPeerEvent_events event key))
  | prunePeerEventsOlderThan maxAgeMs now => exact .inr (.inr (prunePeerEvents_events maxAgeMs now))
  | exportEvents limit => exact .inr (.inr ⟨_, _, rfl⟩)
  | checkpoint => exact .inr (.inr ⟨_, _, rfl⟩)
  | reopen privateKeyPem agentId => exact .inr (.inl ⟨privateKeyPem, agentId, rfl⟩)

/-- The rows that are there stay as they are. -/
theorem events_prefix_applyCall (log : AuditLog) (call : AuditCall) :
    log.db.events <+: (applyCall K log call).db.events := by
  rcases applyCall_cases (K := K) log call with ⟨event, sig, h⟩ | ⟨key, agentId, h⟩ |
    ⟨peerEvents, nextPeerId, h⟩
  · rw [h]
    exact List.prefix_append _ _
  · rw [h, openLog]
  · rw [h]

theorem chainKept_applyCall (h : ChainKept K log) (call : AuditCall) :
    ChainKept K (applyCall K log call) := by
  rcases applyCall_cases (K := K) log call with ⟨event, sig, hcall⟩ | ⟨key, agentId, hcall⟩ |
    ⟨peerEvents, nextPeerId, hcall⟩
  -- the new row is linked to `lastHash`, which was the head of the chain
  · have hhead : rowLinks.head GENESIS (log.db.events ++ [log.nextRow K event sig]) =
        (log.nextRow K event sig).entry_hash := Links.head_concat
    rw [hcall]
    refine ⟨h.chained.concat h.head, ?_, ?_, ?_, hhead.symm⟩
    · intro row hrow
      rcases List.mem_append.mp hrow with hold | hnew
      · exact h.hashes row hold
      · rw [List.mem_singleton.mp hnew, Sealed]
        rfl
    · rw [List.map_append, List.pairwise_append]
      refine ⟨h.ascending, List.pairwise_singleton _ _, ?_⟩
      intro id hid next hnext
      obtain ⟨row, hrow, rfl⟩ := List.mem_map.mp hid
      rw [List.mem_singleton.mp hnext]
      exact h.below row hrow
    · intro row hrow
      rcases List.mem_append.mp hrow with hold | hnew
      · exact Nat.lt_succ_of_lt (h.below row hold)
      · rw [List.mem_singleton.mp hnew]
        exact Nat.lt_succ_self _
  -- the head is read from the last row
  · rw [hcall]
    exact ⟨h.chained, h.hashes, h.ascending, h.below, rfl⟩
  · rw [hcall]
    exact ⟨h.chained, h.hashes, h.ascending, h.below, h.head⟩

/-! ## All calls -/

theorem chainKept_foldl (h : ChainKept K log) (calls : List AuditCall) :
    ChainKept K (calls.foldl (applyCall K) log) := by
  induction calls generalizing log with
  | nil => exact h
  | cons call rest ih => exact ih (chainKept_applyCall h call)

theorem events_prefix_foldl (log : AuditLog) (calls : List AuditCall) :
    log.db.events <+: (calls.foldl (applyCall K) log).db.events := by
  induction calls generalizing log with
  | nil => exact List.prefix_rfl
  | cons call rest ih => exact (events_prefix_applyCall log call).trans (ih (applyCall K log call))

/-- After any calls the local events form one chain from the start value on, in the order of
their ids, with the hash of every row that of its own fields; and no later call changes a row. -/
theorem audit_chain_kept (K : Crypto) (privateKeyPem agentId : String)
    (calls later : List AuditCall) :
    rowLinks.Chained GENESIS (runCalls K privateKeyPem agentId calls).db.events ∧
      (∀ row ∈ (runCalls K privateKeyPem agentId calls).db.events, Sealed K row) ∧
      ((runCalls K privateKeyPem agentId calls).db.events.map AuditRow.id).Pairwise (· < ·) ∧
      (runCalls K privateKeyPem agentId calls).db.events <+:
        (runCalls K privateKeyPem agentId (calls ++ later)).db.events := by
  have hopened : ChainKept K (openLog .empty privateKeyPem agentId) :=
    ⟨trivial, List.forall_mem_nil _, List.Pairwise.nil, List.forall_mem_nil _, rfl⟩
  have hkept : ChainKept K (runCalls K privateKeyPem agentId calls) := chainKept_foldl hopened calls
  refine ⟨hkept.chained, hkept.hashes, hkept.ascending, ?_⟩
  rw [runCalls, runCalls, List.foldl_append]
  exact events_prefix_foldl _ later

end ThinkLocal.Audit
