import ThinkLocal.RegistrySync.Links

/-!
# The inbound buffer

Messages that arrive during a round wait in the buffer of the entry and are
handed to the registry when a round finishes on that entry.  The buffer is
bounded in every run (`inbound_bounded`).

The drain takes all messages out of the buffer before it hands over the first,
so a message that throws takes the rest of its batch with it.  If at every
drain all waiting messages but the last are received without an exception, every
message that an entry accepted was handed over, once and in order, or still
waits (`inbound_in_order`); `inbound_batch_lost` is a run that loses one.
-/

namespace ThinkLocal.RegistrySync

open Foundation Relation

variable {Registry SyncState : Type*}
variable {opts : RegistrySyncCoordinatorOptions Registry SyncState}

/-! ## The drain -/

/-- Are all messages but the last received without an exception? -/
def decodesUpToLast (reg : SyncRegistry Registry SyncState) :
    Registry → SyncState → List Message → Bool
  | _, _, [] => true
  | registry, state, msg :: rest =>
      match reg.receiveSyncMessage registry state msg with
      | (registry', .ok nextState) => decodesUpToLast reg registry' nextState rest
      | (_, .error _) => rest.isEmpty

/-- The drain hands over the whole batch exactly if nothing but its last message throws. -/
theorem drain_handed_eq_iff (reg : SyncRegistry Registry SyncState) (registry : Registry)
    (state : SyncState) (messages : List Message) :
    (drain reg registry state messages).handed = messages ↔
      decodesUpToLast reg registry state messages = true := by
  induction messages generalizing registry state with
  | nil => simp [drain, decodesUpToLast]
  | cons msg rest ih =>
      unfold drain decodesUpToLast
      rcases reg.receiveSyncMessage registry state msg with ⟨registry', result⟩
      cases result with
      | ok nextState => simpa using ih registry' nextState
      | error err => cases rest <;> simp

/-! ## The invariant -/

/-- The sum of the lengths of the messages. -/
def totalBytes (messages : List Message) : Nat := (messages.map List.length).sum

/-- The buffer of every entry is within its limits and its bytes are counted. -/
structure InboundBounded (s : State Registry SyncState) : Prop where
  count : ∀ e, (s.entries e).inboundBuffer.length ≤ maxBufferedMessages
  bytes : ∀ e, (s.entries e).inboundBufferBytes = totalBytes (s.entries e).inboundBuffer
  limit : ∀ e, (s.entries e).inboundBufferBytes ≤ maxBufferedBytes

/-- Until the coordinator stops, messages wait only while the entry has a round in flight. -/
def WaitsForRound (s : State Registry SyncState) : Prop :=
  s.stopped = false → ∀ e, (s.entries e).inboundBuffer ≠ [] → (s.entries e).inflight.isSome

/-- What an entry accepted was handed over, in order, or waits in its buffer. -/
def InOrder (s : State Registry SyncState) : Prop :=
  ∀ e, (s.history e).accepted = (s.history e).handed ++ (s.entries e).inboundBuffer

/-! ## Steps that leave the buffers alone -/

/-- The inbound side of every entry is the same, and no claim to be in flight is given up. -/
structure SameInbound (s s' : State Registry SyncState) : Prop where
  stopped : s'.stopped = false → s.stopped = false
  buffer : ∀ e, (s'.entries e).inboundBuffer = (s.entries e).inboundBuffer
  bytes : ∀ e, (s'.entries e).inboundBufferBytes = (s.entries e).inboundBufferBytes
  inflight : ∀ e, (s.entries e).inflight.isSome → (s'.entries e).inflight.isSome
  accepted : ∀ e, (s'.history e).accepted = (s.history e).accepted
  handed : ∀ e, (s'.history e).handed = (s.history e).handed

theorem sameInbound_of_eq {s s' : State Registry SyncState}
    (hstopped : s'.stopped = false → s.stopped = false) (hentries : s'.entries = s.entries)
    (hhistory : s'.history = s.history) : SameInbound s s' where
  stopped := hstopped
  buffer e := by rw [hentries]
  bytes e := by rw [hentries]
  inflight e := by rw [hentries]; exact id
  accepted e := by rw [hhistory]
  handed e := by rw [hhistory]

/-- Changing one entry, and its history, outside the inbound side. -/
theorem update_sameInbound {s s' : State Registry SyncState} {e : EntryId}
    {entry : PeerSyncEntry SyncState} {history : History}
    (hentries : s'.entries = Function.update s.entries e entry)
    (hhistory : s'.history = Function.update s.history e history)
    (hstopped : s'.stopped = s.stopped)
    (hbuffer : entry.inboundBuffer = (s.entries e).inboundBuffer)
    (hbytes : entry.inboundBufferBytes = (s.entries e).inboundBufferBytes)
    (hinflight : (s.entries e).inflight.isSome → entry.inflight.isSome)
    (haccepted : history.accepted = (s.history e).accepted)
    (hhanded : history.handed = (s.history e).handed) : SameInbound s s' where
  stopped h := hstopped ▸ h
  buffer := field_of_update _ hentries hbuffer
  bytes := field_of_update _ hentries hbytes
  inflight e' h := by
    rw [hentries]
    rcases eq_or_ne e' e with rfl | hne
    · rw [Function.update_self]
      exact hinflight h
    · rwa [Function.update_of_ne hne]
  accepted := field_of_update _ hhistory haccepted
  handed := field_of_update _ hhistory hhanded

theorem startRound_sameInbound (s : State Registry SyncState) (peerId : String) (e : EntryId) :
    SameInbound s (startRound opts s peerId e) := by
  obtain ⟨-, hbuffer, hbytes⟩ := roundBody_frame opts s.registry s.now (s.entries e)
  have hproduce : ∀ phase, ((s.history e).produce s.rounds.next phase).accepted =
      (s.history e).accepted ∧ ((s.history e).produce s.rounds.next phase).handed =
        (s.history e).handed := by
    intro phase
    cases phase <;> exact ⟨rfl, rfl⟩
  exact update_sameInbound rfl rfl rfl hbuffer hbytes (fun _ => rfl) (hproduce _).1 (hproduce _).2

theorem sendSettles_sameInbound (s : State Registry SyncState) (r : RoundId) (round : Round)
    (message : Message) (result : Option Thrown) :
    SameInbound s (sendSettles opts s r round message result) := by
  cases result with
  | none => exact update_sameInbound rfl rfl rfl rfl rfl id rfl rfl
  | some err =>
      obtain ⟨-, hinflight, hbuffer, hbytes, -⟩ :=
        catchRound_frame opts round.aborted err (s.entries round.entry)
      exact update_sameInbound rfl rfl rfl hbuffer hbytes (by rw [hinflight]; exact id) rfl rfl

theorem refuseMessage_sameInbound (s : State Registry SyncState) (peerId : String) (e : EntryId) :
    SameInbound s (refuseMessage s peerId e) := by
  let entry := { s.entries e with lastError := some "inbound sync buffer overflow" }
  have hentries : (refuseMessage s peerId e).entries = Function.update s.entries e entry := by
    simp [refuseMessage, State.modifyEntry, entry]
  have hhistory : (refuseMessage s peerId e).history = Function.update s.history e (s.history e) := by
    simp [refuseMessage, State.modifyEntry]
  have hstopped : (refuseMessage s peerId e).stopped = s.stopped := by
    simp [refuseMessage, State.modifyEntry]
  exact update_sameInbound hentries hhistory hstopped rfl rfl id rfl rfl

/-! ## Steps that fill or drain a buffer -/

theorem InboundBounded.of_sameInbound {s s' : State Registry SyncState} (h : InboundBounded s)
    (hsame : SameInbound s s') : InboundBounded s' where
  count e := by
    rw [hsame.buffer]
    exact h.count e
  bytes e := by
    rw [hsame.bytes, hsame.buffer]
    exact h.bytes e
  limit e := by
    rw [hsame.bytes]
    exact h.limit e

theorem WaitsForRound.of_sameInbound {s s' : State Registry SyncState} (h : WaitsForRound s)
    (hsame : SameInbound s s') : WaitsForRound s' := by
  intro hstopped e hwaiting
  rw [hsame.buffer] at hwaiting
  exact hsame.inflight e (h (hsame.stopped hstopped) e hwaiting)

theorem InOrder.of_sameInbound {s s' : State Registry SyncState} (h : InOrder s)
    (hsame : SameInbound s s') : InOrder s' := by
  intro e
  rw [hsame.accepted, hsame.handed, hsame.buffer]
  exact h e

variable (opts) in
/-- The entry that a finishing round matches, after the round: its buffer is as it
was, if there was nothing to drain, or empty, and the drain handed it over. -/
theorem finishRound_inbound (s : State Registry SyncState) (r : RoundId) (round : Round)
    (rejected : Bool) {e : EntryId} (hmatches : Matches s round e) :
    let s' := finishRound opts s r round rejected
    ((s.stopped = true ∨ (s.entries e).inboundBuffer = []) ∧
        (s'.entries e).inboundBuffer = (s.entries e).inboundBuffer ∧
        (s'.entries e).inboundBufferBytes = (s.entries e).inboundBufferBytes ∧
        s'.history e = s.history e) ∨
      (s.stopped = false ∧ (s'.entries e).inboundBuffer = [] ∧
        (s'.entries e).inboundBufferBytes = 0 ∧
        s'.history e = { s.history e with
          handed := (s.history e).handed ++
            (drain opts.registry s.registry (s.entries e).state
              (s.entries e).inboundBuffer).handed }) := by
  intro s'
  have hs' : s' = finishRound opts s r round rejected := rfl
  rcases finishRound_cases opts s r round rejected with ⟨hnone, -⟩ | ⟨current, hcurrent, h⟩
  · exact absurd hmatches (hnone e)
  have he : current = e := Option.some.inj (hcurrent.1.symm.trans hmatches.1)
  rw [h, he] at hs'
  -- the drain takes the whole buffer, and only of a coordinator that runs
  by_cases hdrains : (s.entries e).inboundBuffer ≠ [] ∧ s.stopped = false
  · obtain ⟨-, hentry, hhistory⟩ := drainEntry_waiting opts
      { s with rounds := s.rounds.free r } round.peerId hdrains.1 hdrains.2
    rw [hs']
    refine .inr ⟨hdrains.2, ?_, ?_, hhistory⟩
    · exact congrArg PeerSyncEntry.inboundBuffer hentry
    · exact congrArg PeerSyncEntry.inboundBufferBytes hentry
  · rw [drainEntry_nothing opts { s with rounds := s.rounds.free r } round.peerId hdrains] at hs'
    have hentry : s'.entries e = { s.entries e with inflight := none, abortController := none } := by
      rw [hs']
      exact Function.update_self ..
    refine .inl ⟨?_, by rw [hentry], by rw [hentry], by rw [hs']; rfl⟩
    by_contra hnot
    rw [not_or] at hnot
    exact hdrains ⟨hnot.2, by simpa using hnot.1⟩

variable (opts) in
/-- A new entry has an empty buffer and an empty history. -/
theorem addPeerEntry_inbound (s : State Registry SyncState) (peerId : String)
    (previous : Option (PeerSyncEntry SyncState)) (e : EntryId) :
    let s' := s.addPeerEntry opts peerId previous
    (s'.entries e = s.entries e ∧ s'.history e = s.history e) ∨
      (s'.entries e = createPeerEntry opts previous ∧ s'.history e = {}) := by
  intro s'
  by_cases he : e = s.nextEntry
  · subst he
    exact .inr ⟨Function.update_self .., Function.update_self ..⟩
  · exact .inl ⟨Function.update_of_ne he .., Function.update_of_ne he ..⟩

theorem pushMessage_inbound (s : State Registry SyncState) (e e' : EntryId) (message : Message) :
    let s' := pushMessage s e message
    (e' ≠ e ∧ s'.entries e' = s.entries e' ∧ s'.history e' = s.history e') ∨
      (e' = e ∧ (s'.entries e').inboundBuffer = (s.entries e).inboundBuffer ++ [message] ∧
        (s'.entries e').inboundBufferBytes = (s.entries e).inboundBufferBytes + message.length ∧
        (s'.entries e').inflight = (s.entries e).inflight ∧
        (s'.history e').accepted = (s.history e).accepted ++ [message] ∧
        (s'.history e').handed = (s.history e).handed) := by
  intro s'
  by_cases he : e' = e
  · subst he
    refine .inr ⟨rfl, ?_⟩
    simp [s', pushMessage, State.record, State.modifyEntry]
  · refine .inl ⟨he, ?_, ?_⟩
    · exact Function.update_of_ne he ..
    · exact Function.update_of_ne he ..

variable (opts) in
theorem handOver_inbound (s : State Registry SyncState) (e e' : EntryId) (message : Message) :
    let s' := (handOver opts s e message).1
    s'.stopped = s.stopped ∧ (s'.entries e').inboundBuffer = (s.entries e').inboundBuffer ∧
      (s'.entries e').inboundBufferBytes = (s.entries e').inboundBufferBytes ∧
      (s'.entries e').inflight = (s.entries e').inflight ∧
      s'.history e' = if e' = e then
        { s.history e with
          accepted := (s.history e).accepted ++ [message]
          handed := (s.history e).handed ++ [message] }
      else s.history e' := by
  intro s'
  have hs' : s' = (handOver opts s e message).1 := rfl
  unfold handOver at hs'
  dsimp only at hs'
  -- an exception of the registry leaves the state of the entry as it was
  split at hs'
  · rw [hs']
    refine ⟨rfl, ?_, ?_, ?_, Function.update_apply ..⟩
    all_goals
      rw [State.modifyEntry_entries]
      split
      · rw [‹e' = e›]; rfl
      · rfl
  · rw [hs']
    exact ⟨rfl, rfl, rfl, rfl, Function.update_apply ..⟩

/-! ## The bounds -/

theorem InboundBounded.push {s : State Registry SyncState} (h : InboundBounded s) {e : EntryId}
    {message : Message} (hroom : overflows (s.entries e) message = false) :
    InboundBounded (pushMessage s e message) := by
  simp only [overflows, Bool.or_eq_false_iff, decide_eq_false_iff_not, not_le, not_lt] at hroom
  constructor
  all_goals
    intro e'
    rcases pushMessage_inbound s e e' message with ⟨-, hentry, -⟩ | ⟨-, hbuffer, hbytes, -⟩
  · rw [hentry]
    exact h.count e'
  · rw [hbuffer, List.length_append, List.length_singleton]
    exact hroom.1
  · rw [hentry]
    exact h.bytes e'
  · rw [hbuffer, hbytes, h.bytes e]
    simp [totalBytes]
  · rw [hentry]
    exact h.limit e'
  · rw [hbytes]
    exact hroom.2

theorem InboundBounded.finish {s : State Registry SyncState} (h : InboundBounded s) {r : RoundId}
    {round : Round} {rejected : Bool} : InboundBounded (finishRound opts s r round rejected) := by
  have hentry : ∀ e,
      let entry := (finishRound opts s r round rejected).entries e
      (entry.inboundBuffer = (s.entries e).inboundBuffer ∧
          entry.inboundBufferBytes = (s.entries e).inboundBufferBytes) ∨
        (entry.inboundBuffer = [] ∧ entry.inboundBufferBytes = 0) := by
    intro e
    by_cases hmatches : Matches s round e
    · rcases finishRound_inbound opts s r round rejected hmatches with
        ⟨-, hbuffer, hbytes, -⟩ | ⟨-, hbuffer, hbytes, -⟩
      · exact .inl ⟨hbuffer, hbytes⟩
      · exact .inr ⟨hbuffer, hbytes⟩
    · rw [(finishRound_of_not_matches opts s r round rejected hmatches).1]
      exact .inl ⟨rfl, rfl⟩
  constructor
  all_goals
    intro e
    rcases hentry e with ⟨hbuffer, hbytes⟩ | ⟨hbuffer, hbytes⟩
  · rw [hbuffer]; exact h.count e
  · rw [hbuffer]; exact Nat.zero_le _
  · rw [hbytes, hbuffer]; exact h.bytes e
  · rw [hbytes, hbuffer]; rfl
  · rw [hbytes]; exact h.limit e
  · rw [hbytes]; exact Nat.zero_le _

theorem InboundBounded.move {D : Conditions Registry SyncState} {s s' : State Registry SyncState}
    (h : InboundBounded s) (hmove : Move opts D s s') : InboundBounded s' := by
  cases hmove with
  | quiet hquiet =>
      exact h.of_sameInbound (sameInbound_of_eq hquiet.stopped hquiet.entries hquiet.history)
  | add peerId _ =>
      constructor
      -- a new entry has an empty buffer
      all_goals
        intro e
        rcases addPeerEntry_inbound opts s peerId _ e with ⟨hentry, -⟩ | ⟨hentry, -⟩
      · rw [hentry]; exact h.count e
      · rw [hentry]; exact Nat.zero_le _
      · rw [hentry]; exact h.bytes e
      · rw [hentry]; rfl
      · rw [hentry]; exact h.limit e
      · rw [hentry]; exact Nat.zero_le _
  | delete peerId => exact h.of_sameInbound (sameInbound_of_eq id rfl rfl)
  | clear => exact h.of_sameInbound (sameInbound_of_eq id rfl rfl)
  | start hpeer hidle _ => exact h.of_sameInbound (startRound_sameInbound _ _ _)
  | push _ _ hroom => exact h.push hroom
  | refuse _ => exact h.of_sameInbound (refuseMessage_sameInbound _ _ _)
  | handOver _ _ _ =>
      constructor
      all_goals
        intro e'
        obtain ⟨-, hbuffer, hbytes, -⟩ := handOver_inbound opts s _ e' _
      · rw [hbuffer]; exact h.count e'
      · rw [hbytes, hbuffer]; exact h.bytes e'
      · rw [hbytes]; exact h.limit e'
  | sendSettles result _ _ _ => exact h.of_sameInbound (sendSettles_sameInbound _ _ _ _ _)
  | hungUp _ _ => exact h.of_sameInbound (sameInbound_of_eq id rfl rfl)
  | finish _ _ _ => exact h.finish
  | forget o => exact h.of_sameInbound (sameInbound_of_eq id rfl rfl)

/-- The buffers are bounded in every run. -/
theorem inbound_bounded {registry : Registry} {s : State Registry SyncState}
    (h : (coordinator opts registry).Reachable s) : InboundBounded s := by
  refine reachable_of_moves ?_ (fun _ _ hs hmove => hs.move hmove) h
  exact ⟨fun _ => Nat.zero_le _, fun _ => rfl, fun _ => Nat.zero_le _⟩

/-! ## Waiting messages have a round to wait for -/

theorem WaitsForRound.move {D : Conditions Registry SyncState} {s s' : State Registry SyncState}
    (h : WaitsForRound s) (hmove : Move opts D s s') : WaitsForRound s' := by
  cases hmove with
  | quiet hquiet =>
      exact h.of_sameInbound (sameInbound_of_eq hquiet.stopped hquiet.entries hquiet.history)
  | add peerId _ =>
      intro hstopped e hwaiting
      rcases addPeerEntry_inbound opts s peerId _ e with ⟨hentry, -⟩ | ⟨hentry, -⟩
      · rw [hentry] at hwaiting ⊢
        exact h hstopped e hwaiting
      · rw [hentry] at hwaiting
        exact absurd rfl hwaiting
  | delete peerId => exact h.of_sameInbound (sameInbound_of_eq id rfl rfl)
  | clear => exact h.of_sameInbound (sameInbound_of_eq id rfl rfl)
  | start hpeer hidle _ => exact h.of_sameInbound (startRound_sameInbound _ _ _)
  | @push _ e message _ hbusy _ =>
      intro hstopped e' hwaiting
      -- a message is only buffered while a round is outstanding
      rcases pushMessage_inbound s e e' message with
        ⟨-, hentry, -⟩ | ⟨-, -, -, hinflight, -⟩
      · rw [hentry] at hwaiting ⊢
        exact h hstopped e' hwaiting
      · rwa [hinflight]
  | refuse _ => exact h.of_sameInbound (refuseMessage_sameInbound _ _ _)
  | @handOver _ e message _ _ _ =>
      intro hstopped e' hwaiting
      obtain ⟨hstop, hbuffer, -, hinflight, -⟩ := handOver_inbound opts s e e' message
      rw [hbuffer] at hwaiting
      rw [hinflight]
      exact h (hstop ▸ hstopped) e' hwaiting
  | sendSettles result _ _ _ => exact h.of_sameInbound (sendSettles_sameInbound _ _ _ _ _)
  | hungUp _ _ => exact h.of_sameInbound (sameInbound_of_eq id rfl rfl)
  | @finish r round rejected _ _ _ =>
      intro hstopped e hwaiting
      rw [finishRound_stopped] at hstopped
      -- the end of a round empties the buffer or starts the next round
      by_cases hmatches : Matches s round e
      · rcases finishRound_inbound opts s r round rejected hmatches with
          ⟨hnothing, hbuffer, -⟩ | ⟨-, hbuffer, -⟩
        · rcases hnothing with hstop | hempty
          · rw [hstop] at hstopped
            cases hstopped
          · exact absurd (hbuffer.trans hempty) hwaiting
        · exact absurd hbuffer hwaiting
      · rw [(finishRound_of_not_matches opts s r round rejected hmatches).1] at hwaiting ⊢
        exact h hstopped e hwaiting
  | forget o => exact h.of_sameInbound (sameInbound_of_eq id rfl rfl)

theorem waitsForRound_of_reachable {registry : Registry} {s : State Registry SyncState}
    (h : (coordinator opts registry).Reachable s) : WaitsForRound s :=
  reachable_of_moves (fun _ _ hwaiting => absurd rfl hwaiting) (fun _ _ hs hmove => hs.move hmove) h

/-! ## Delivery in order -/

/-- Where a round finishes on an entry, all its waiting messages but the last are
received without an exception. -/
def DrainsDecode (opts : RegistrySyncCoordinatorOptions Registry SyncState)
    (s : State Registry SyncState) : Action Registry → Prop
  | .roundFinishes r => s.stopped = false →
      ∀ round ∈ s.rounds.get r, ∀ e ∈ s.peers.get round.peerId,
        (s.entries e).generation = round.generation →
          decodesUpToLast opts.registry s.registry (s.entries e).state
            (s.entries e).inboundBuffer = true
  | _ => True

instance (s : State Registry SyncState) (a : Action Registry) :
    Decidable (DrainsDecode opts s a) := by
  cases a <;> unfold DrainsDecode <;> infer_instance

/-- The condition on the moves that `DrainsDecode` gives. -/
def decodingMoves (opts : RegistrySyncCoordinatorOptions Registry SyncState) :
    Conditions Registry SyncState where
  finish s r := DrainsDecode opts s (.roundFinishes r)

theorem InOrder.finish {s : State Registry SyncState} (h : InOrder s) {r : RoundId}
    {round : Round} (rejected : Bool) (hround : s.rounds.get r = some round)
    (hdecode : DrainsDecode opts s (.roundFinishes r)) :
    InOrder (finishRound opts s r round rejected) := by
  intro e
  by_cases hmatches : Matches s round e
  · rcases finishRound_inbound opts s r round rejected hmatches with
      ⟨-, hbuffer, -, hhistory⟩ | ⟨hstopped, hbuffer, -, hhistory⟩
    · rw [hbuffer, hhistory]
      exact h e
    · have hall := (drain_handed_eq_iff opts.registry s.registry _ _).mpr
        (hdecode hstopped round hround e hmatches.1 hmatches.2)
      rw [hbuffer, hhistory, List.append_nil, hall]
      exact h e
  · obtain ⟨hentry, hhistory⟩ := finishRound_of_not_matches opts s r round rejected hmatches
    rw [hentry, hhistory]
    exact h e

theorem InOrder.move {s s' : State Registry SyncState} (h : InOrder s) (hwaits : WaitsForRound s)
    (hmove : Move opts (decodingMoves opts) s s') : InOrder s' := by
  cases hmove with
  | quiet hquiet =>
      exact h.of_sameInbound (sameInbound_of_eq hquiet.stopped hquiet.entries hquiet.history)
  | add peerId _ =>
      intro e
      rcases addPeerEntry_inbound opts s peerId _ e with
        ⟨hentry, hhistory⟩ | ⟨hentry, hhistory⟩
      · rw [hentry, hhistory]
        exact h e
      · rw [hentry, hhistory]
        rfl
  | delete peerId => exact h.of_sameInbound (sameInbound_of_eq id rfl rfl)
  | clear => exact h.of_sameInbound (sameInbound_of_eq id rfl rfl)
  | start hpeer hidle _ => exact h.of_sameInbound (startRound_sameInbound _ _ _)
  | @push _ e message _ _ _ =>
      intro e'
      rcases pushMessage_inbound s e e' message with
        ⟨-, hentry, hhistory⟩ | ⟨-, hbuffer, -, -, haccepted, hhanded⟩
      · rw [hentry, hhistory]
        exact h e'
      · rw [haccepted, hhanded, hbuffer, h e, List.append_assoc]
  | refuse _ => exact h.of_sameInbound (refuseMessage_sameInbound _ _ _)
  | @handOver _ e message _ hidle hstopped =>
      -- the entry is idle, so nothing waits that the message could overtake
      have hempty : (s.entries e).inboundBuffer = [] := by
        by_contra hwaiting
        have hbusy := hwaits hstopped e hwaiting
        rw [hidle] at hbusy
        cases hbusy
      intro e'
      obtain ⟨-, hbuffer, -, -, hhistory⟩ := handOver_inbound opts s e e' message
      rw [hhistory, hbuffer]
      split
      · rw [‹e' = e›, hempty, List.append_nil, h e, hempty, List.append_nil]
      · exact h e'
  | sendSettles result _ _ _ => exact h.of_sameInbound (sendSettles_sameInbound _ _ _ _ _)
  | hungUp _ _ => exact h.of_sameInbound (sameInbound_of_eq id rfl rfl)
  | finish hround _ hdecode => exact h.finish _ hround hdecode
  | forget o => exact h.of_sameInbound (sameInbound_of_eq id rfl rfl)

theorem inOrder_of_reachable {registry : Registry} {s : State Registry SyncState}
    (h : (coordinator opts registry).ReachableUnder (DrainsDecode opts) s) : InOrder s := by
  refine Machine.ReachableUnder.invariant_with (fun _ hs => waitsForRound_of_reachable hs) ?_ ?_ h
  · intro e
    rfl
  · intro s a s' hwaits horder hdecode hstep
    have hmoves : ReflTransGen (Move opts (decodingMoves opts)) s s' := by
      refine step_moves (fun _ _ _ => trivial) (fun _ _ _ => trivial) (fun r hr => ?_) hstep
      rw [hr] at hdecode
      exact hdecode
    have hboth : WaitsForRound s' ∧ InOrder s' :=
      moves_invariant (I := fun s => WaitsForRound s ∧ InOrder s)
        (fun _ _ hI hmove => ⟨hI.1.move hmove, hI.2.move hI.1 hmove⟩) hmoves ⟨hwaits, horder⟩
    exact hboth.2

/-- The messages that wait for an entry of the map wait for the end of an outstanding round. -/
theorem awaited_of_reachable {registry : Registry} {s : State Registry SyncState}
    (h : (coordinator opts registry).Reachable s) {p : String} {e : EntryId}
    (hstopped : s.stopped = false) (hpeer : s.peers.get p = some e)
    (hwaiting : (s.entries e).inboundBuffer ≠ []) :
    ∃ r round, s.rounds.get r = some round ∧ Matches s round e := by
  have hlinked := linked_of_reachable h
  have hbusy := waitsForRound_of_reachable h hstopped e hwaiting
  obtain ⟨r, hr⟩ := Option.isSome_iff_exists.mp hbusy
  obtain ⟨round, hround, rfl⟩ := hlinked.inflight_outstanding p e r hpeer hr
  have hp : p = round.peerId := hlinked.round_peer r round p hround hpeer
  exact ⟨r, round, hround, hp ▸ hpeer, hlinked.round_generation r round hround⟩

/-- The end of a round empties the buffer of the entry it finds. -/
theorem emptied_by_finish {s s' : State Registry SyncState} {r : RoundId} {round : Round}
    {e : EntryId} (hstopped : s.stopped = false) (hround : s.rounds.get r = some round)
    (hmatches : Matches s round e) (hstep : step opts s (.roundFinishes r) = some s') :
    (s'.entries e).inboundBuffer = [] := by
  obtain ⟨round', rejected, hround', -, rfl⟩ := step_roundFinishes hstep
  obtain rfl := Option.some.inj (hround.symm.trans hround')
  rcases finishRound_inbound opts s r round rejected hmatches with
    ⟨hnothing, hbuffer, -⟩ | ⟨-, hbuffer, -⟩
  · rcases hnothing with hstop | hempty
    · rw [hstop] at hstopped
      cases hstopped
    · exact hbuffer.trans hempty
  · exact hbuffer

/-- The buffers are bounded; what an entry accepted was handed over in order or
waits, for the end of an outstanding round that empties the buffer. -/
structure InboundDelivered (opts : RegistrySyncCoordinatorOptions Registry SyncState)
    (s : State Registry SyncState) : Prop where
  bounded : InboundBounded s
  in_order : InOrder s
  awaited : s.stopped = false → ∀ p e, s.peers.get p = some e →
    (s.entries e).inboundBuffer ≠ [] → ∃ r round, s.rounds.get r = some round ∧ Matches s round e
  emptied : s.stopped = false → ∀ r round e s', s.rounds.get r = some round →
    Matches s round e → step opts s (.roundFinishes r) = some s' →
      (s'.entries e).inboundBuffer = []

/-- In every run whose drains receive all waiting messages but the last without
an exception, no accepted message is lost, repeated or overtaken. -/
theorem inbound_in_order {registry : Registry} {s : State Registry SyncState}
    (h : (coordinator opts registry).ReachableUnder (DrainsDecode opts) s) :
    InboundDelivered opts s where
  bounded := inbound_bounded h.reachable
  in_order := inOrder_of_reachable h
  awaited hstopped _ _ hpeer hwaiting :=
    awaited_of_reachable h.reachable hstopped hpeer hwaiting
  emptied hstopped _ _ _ _ hround hmatches hstep :=
    emptied_by_finish hstopped hround hmatches hstep

/-- A round during which messages arrive, up to its end. -/
def batch (messages : List Message) : List (Action Nat) :=
  [.connect "peer"] ++ messages.map (.message "peer") ++ [.sendSettles 0 none, .roundFinishes 0]

/-- The second message of the batch is accepted and never handed over, because
the first does not decode. -/
theorem inbound_batch_lost :
    ∃ s, (coordinator counterOptions 0).Reachable s ∧
      (s.history 0).accepted = [[0], [5]] ∧ (s.history 0).handed = [[0]] ∧
      ¬ InboundDelivered counterOptions s := by
  have hrun : ((coordinator counterOptions 0).runFrom (initialState counterOptions 0)
      (batch [[0], [5]])).map (fun s => (s.history 0, (s.entries 0).inboundBuffer)) =
        some ({ accepted := [[0], [5]], handed := [[0]], produced := [(0, [1])],
                delivered := [(0, [1])] }, []) := by decide
  obtain ⟨s, hs, hlook⟩ := Option.map_eq_some_iff.mp hrun
  simp only [Prod.mk.injEq] at hlook
  obtain ⟨hhistory, hbuffer⟩ := hlook
  refine ⟨s, Machine.reachable_of_runFrom hs, by rw [hhistory], by rw [hhistory], fun h => ?_⟩
  have horder := h.in_order 0
  rw [hhistory, hbuffer] at horder
  revert horder
  decide

/-- The message that does not decode comes last, and the batch is handed over. -/
theorem inbound_batch_delivered :
    ∃ s, (coordinator counterOptions 0).Reachable s ∧
      (s.history 0).handed = [[5], [0]] ∧ InboundDelivered counterOptions s := by
  have hrun : ((coordinator counterOptions 0).runFrom (initialState counterOptions 0)
      (batch [[5], [0]])).map (fun s => (s.history 0).handed) = some [[5], [0]] := by decide
  obtain ⟨s, hs, hhanded⟩ := Option.map_eq_some_iff.mp hrun
  have hreach : (coordinator counterOptions 0).ReachableUnder
      (DrainsDecode counterOptions) s :=
    Machine.ReachableUnder.init.runFrom (by decide) hs
  exact ⟨s, hreach.reachable, hhanded, inbound_in_order hreach⟩

end ThinkLocal.RegistrySync
