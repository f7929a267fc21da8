import Mathlib.Logic.Relation
import ThinkLocal.RegistrySync.Coordinator

/-!
# What one step of the coordinator can do

Every action is a sequence of a few primitive moves: an entry is added to or
deleted from the map, a round starts, its `send` or `hangUp` settles, it
finishes, a message is buffered, handed over or refused.  `step_moves` says
which, once for all actions, and the invariants of the later files are proved by
cases on `Move`.

A file that restricts the runs passes the restriction as `Conditions` on the
moves; `step_moves` asks for them at the actions where such a move occurs.
-/

namespace ThinkLocal.RegistrySync

open Foundation Relation

variable {Registry SyncState : Type*}

/-! ## Frames of the helper functions -/

/-- A field that the new value of one entry keeps is kept in all of them. -/
theorem field_of_update {α β γ : Type*} [DecidableEq α] (field : β → γ) {f f' : α → β} {e : α}
    {v : β} (h : f' = Function.update f e v) (hfield : field v = field (f e)) (e' : α) :
    field (f' e') = field (f e') := by
  subst h
  rcases eq_or_ne e' e with rfl | hne
  · rw [Function.update_self, hfield]
  · rw [Function.update_of_ne hne]

namespace State

variable (s : State Registry SyncState)

@[simp] theorem modifyEntry_entries_self (e : EntryId)
    (f : PeerSyncEntry SyncState → PeerSyncEntry SyncState) :
    (s.modifyEntry e f).entries e = f (s.entries e) := by
  simp [modifyEntry]

theorem modifyEntry_entries (e e' : EntryId)
    (f : PeerSyncEntry SyncState → PeerSyncEntry SyncState) :
    (s.modifyEntry e f).entries e' = if e' = e then f (s.entries e) else s.entries e' := by
  simp [modifyEntry, Function.update_apply]

@[simp] theorem abort_peers (c : Option RoundId) : (s.abort c).peers = s.peers := by
  cases c <;> rfl

@[simp] theorem abort_entries (c : Option RoundId) : (s.abort c).entries = s.entries := by
  cases c <;> rfl

@[simp] theorem abort_nextEntry (c : Option RoundId) :
    (s.abort c).nextEntry = s.nextEntry := by
  cases c <;> rfl

@[simp] theorem abort_history (c : Option RoundId) : (s.abort c).history = s.history := by
  cases c <;> rfl

@[simp] theorem abort_overflows (c : Option RoundId) :
    (s.abort c).overflows = s.overflows := by
  cases c <;> rfl

@[simp] theorem abort_stopped (c : Option RoundId) : (s.abort c).stopped = s.stopped := by
  cases c <;> rfl

@[simp] theorem abort_rounds_next (c : Option RoundId) :
    (s.abort c).rounds.next = s.rounds.next := by
  cases c <;> rfl

end State

/-- A round up to whether it was aborted. -/
def Round.body (round : Round) : Round := { round with aborted := false }

theorem abort_rounds_body (s : State Registry SyncState) (c : Option RoundId) (r : RoundId) :
    ((s.abort c).rounds.get r).map Round.body = (s.rounds.get r).map Round.body := by
  cases c with
  | none => rfl
  | some r' =>
      show ((s.rounds.modify r' _).get r).map Round.body = _
      rw [Arena.get_modify]
      split
      · cases s.rounds.get r <;> rfl
      · rfl

/-! ## Moves -/

/-- No peer, entry, history or overflow changes, and of the rounds only which
are aborted. -/
structure Quiet (s s' : State Registry SyncState) : Prop where
  peers : s'.peers = s.peers
  entries : s'.entries = s.entries
  nextEntry : s'.nextEntry = s.nextEntry
  history : s'.history = s.history
  overflows : s'.overflows = s.overflows
  stopped : s'.stopped = false → s.stopped = false
  nextRound : s'.rounds.next = s.rounds.next
  rounds : ∀ r, (s'.rounds.get r).map Round.body = (s.rounds.get r).map Round.body

theorem Quiet.of_eq {s s' : State Registry SyncState} (hpeers : s'.peers = s.peers)
    (hentries : s'.entries = s.entries) (hnext : s'.nextEntry = s.nextEntry)
    (hhistory : s'.history = s.history) (hoverflows : s'.overflows = s.overflows)
    (hstopped : s'.stopped = false → s.stopped = false) (hrounds : s'.rounds = s.rounds) :
    Quiet s s' where
  peers := hpeers
  entries := hentries
  nextEntry := hnext
  history := hhistory
  overflows := hoverflows
  stopped := hstopped
  nextRound := by rw [hrounds]
  rounds r := by rw [hrounds]

theorem Quiet.abort (s : State Registry SyncState) (c : Option RoundId) : Quiet s (s.abort c) where
  peers := by simp
  entries := by simp
  nextEntry := by simp
  history := by simp
  overflows := by simp
  stopped := by simp
  nextRound := by simp
  rounds := abort_rounds_body s c

theorem Quiet.trans {s₁ s₂ s₃ : State Registry SyncState} (h : Quiet s₁ s₂) (h' : Quiet s₂ s₃) :
    Quiet s₁ s₃ where
  peers := h'.peers.trans h.peers
  entries := h'.entries.trans h.entries
  nextEntry := h'.nextEntry.trans h.nextEntry
  history := h'.history.trans h.history
  overflows := h'.overflows.trans h.overflows
  stopped hs := h.stopped (h'.stopped hs)
  nextRound := h'.nextRound.trans h.nextRound
  rounds r := (h'.rounds r).trans (h.rounds r)

/-- An outstanding round after a quiet step was outstanding before it. -/
theorem Quiet.round {s s' : State Registry SyncState} (h : Quiet s s') {r : RoundId}
    {round : Round} (hround : s'.rounds.get r = some round) :
    ∃ old, s.rounds.get r = some old ∧ old.body = round.body := by
  have hbody := h.rounds r
  rw [hround, Option.map_some] at hbody
  exact Option.map_eq_some_iff.mp hbody.symm

/-- An outstanding round stays outstanding in a quiet step. -/
theorem Quiet.round_after {s s' : State Registry SyncState} (h : Quiet s s') {r : RoundId}
    {round : Round} (hround : s.rounds.get r = some round) :
    ∃ new, s'.rounds.get r = some new ∧ new.body = round.body := by
  have hbody := h.rounds r
  rw [hround, Option.map_some] at hbody
  exact Option.map_eq_some_iff.mp hbody

/-- Restrictions on the moves of a run. -/
structure Conditions (Registry SyncState : Type*) where
  add : State Registry SyncState → String → Prop := fun _ _ => True
  settle : State Registry SyncState → RoundId → Option Thrown → Prop := fun _ _ _ => True
  finish : State Registry SyncState → RoundId → Prop := fun _ _ => True

/-- The primitive moves that satisfy the conditions. -/
inductive Move (opts : RegistrySyncCoordinatorOptions Registry SyncState)
    (D : Conditions Registry SyncState) : State Registry SyncState → State Registry SyncState → Prop
  | quiet {s s'} (h : Quiet s s') : Move opts D s s'
  | add {s} (peerId : String) (hD : D.add s peerId) :
      Move opts D s (s.addPeerEntry opts peerId ((s.peers.get peerId).map s.entries))
  | delete {s} (peerId : String) : Move opts D s (s.deletePeer peerId)
  | clear {s} : Move opts D s { s with peers := .empty }
  | start {s peerId e} (hpeer : s.peers.get peerId = some e)
      (hidle : (s.entries e).inflight = none) (hstopped : s.stopped = false) :
      Move opts D s (startRound opts s peerId e)
  | push {s peerId e message} (hpeer : s.peers.get peerId = some e)
      (hbusy : (s.entries e).inflight.isSome) (hroom : overflows (s.entries e) message = false) :
      Move opts D s (pushMessage s e message)
  | refuse {s peerId e} (hpeer : s.peers.get peerId = some e) :
      Move opts D s (refuseMessage s peerId e)
  | handOver {s peerId e message} (hpeer : s.peers.get peerId = some e)
      (hidle : (s.entries e).inflight = none) (hstopped : s.stopped = false) :
      Move opts D s (handOver opts s e message).1
  | sendSettles {s r round message} (result : Option Thrown)
      (hround : s.rounds.get r = some round) (hphase : round.phase = .sending message)
      (hD : D.settle s r result) : Move opts D s (sendSettles opts s r round message result)
  | hungUp {s r round} (hround : s.rounds.get r = some round) (hphase : round.phase = .hangingUp) :
      Move opts D s { s with
        rounds := s.rounds.modify r fun round => { round with phase := .finished false } }
  | finish {s r round rejected} (hround : s.rounds.get r = some round)
      (hphase : round.phase = .finished rejected) (hD : D.finish s r) :
      Move opts D s (finishRound opts s r round rejected)
  | forget {s} (o : Nat) : Move opts D s { s with overflows := s.overflows.free o }

/-! ## What a step has found -/

section Found

variable {opts : RegistrySyncCoordinatorOptions Registry SyncState} {s s' : State Registry SyncState}

theorem step_timerFires {t : Nat} (hstep : step opts s (.timerFires t) = some s') :
    s' = tick opts { s with timers := s.timers.free t, tickTimer := none } := by
  simp only [step] at hstep
  split at hstep
  · cases hstep
  · exact (Option.some.inj hstep).symm

theorem step_tickResumes {t : Nat} (hstep : step opts s (.tickResumes t) = some s') :
    s' = scheduleNextTick { s with ticks := s.ticks.free t } := by
  simp only [step] at hstep
  split at hstep
  · exact (Option.some.inj hstep).symm
  · cases hstep

theorem step_microtask (hstep : step opts s .microtask = some s') :
    ∃ peerId rest, s' = (runRound opts { s with microtasks := rest } peerId).1 := by
  simp only [step] at hstep
  split at hstep
  · cases hstep
  · exact ⟨_, _, (Option.some.inj hstep).symm⟩

theorem step_roundTimeout {r : RoundId} (hstep : step opts s (.roundTimeout r) = some s') :
    s' = s.abort (some r) := by
  simp only [step] at hstep
  split at hstep
  · cases hstep
  · split at hstep
    · cases hstep
    · exact (Option.some.inj hstep).symm

theorem step_sendSettles {r : RoundId} {result : Option Thrown}
    (hstep : step opts s (.sendSettles r result) = some s') :
    ∃ round message, s.rounds.get r = some round ∧ round.phase = .sending message ∧
      s' = sendSettles opts s r round message result := by
  simp only [step] at hstep
  split at hstep
  · cases hstep
  · next round hround =>
      split at hstep
      · next message hphase =>
          exact ⟨round, message, hround, hphase, (Option.some.inj hstep).symm⟩
      · cases hstep

theorem step_hangUpSettles {r : RoundId} (hstep : step opts s (.hangUpSettles r) = some s') :
    ∃ round, s.rounds.get r = some round ∧ round.phase = .hangingUp ∧
      s' = hangUpSettles s r round := by
  simp only [step] at hstep
  split at hstep
  · cases hstep
  · next round hround =>
      split at hstep
      · next hphase => exact ⟨round, hround, hphase, (Option.some.inj hstep).symm⟩
      · cases hstep

theorem step_roundFinishes {r : RoundId} (hstep : step opts s (.roundFinishes r) = some s') :
    ∃ round rejected, s.rounds.get r = some round ∧ round.phase = .finished rejected ∧
      s' = finishRound opts s r round rejected := by
  simp only [step] at hstep
  split at hstep
  · cases hstep
  · next round hround =>
      split at hstep
      · next rejected hphase =>
          exact ⟨round, rejected, hround, hphase, (Option.some.inj hstep).symm⟩
      · cases hstep

theorem step_overflowSettles {o : Nat} (hstep : step opts s (.overflowSettles o) = some s') :
    ∃ overflow, s.overflows.get o = some overflow ∧
      s' = { s with overflows := s.overflows.free o }.deletePeer overflow.peerId := by
  simp only [step] at hstep
  split at hstep
  · cases hstep
  · next overflow ho => exact ⟨overflow, ho, (Option.some.inj hstep).symm⟩

theorem step_stopResumes {k : Nat} (hstep : step opts s (.stopResumes k) = some s') :
    s' = { s with stops := s.stops.free k, peers := .empty } := by
  simp only [step] at hstep
  split at hstep
  · cases hstep
  · split at hstep
    · exact (Option.some.inj hstep).symm
    · cases hstep

end Found

/-! ## The moves of each action -/

section

variable (opts : RegistrySyncCoordinatorOptions Registry SyncState)

/-- `runRound` does nothing or starts a round on the idle entry of the peer. -/
theorem runRound_cases (s : State Registry SyncState) (peerId : String) :
    runRound opts s peerId = (s, none) ∨
      ∃ e, s.stopped = false ∧ s.peers.get peerId = some e ∧ (s.entries e).inflight = none ∧
        runRound opts s peerId = (startRound opts s peerId e, some s.rounds.next) := by
  unfold runRound
  by_cases hstopped : s.stopped = true
  · exact .inl (if_pos hstopped)
  rw [if_neg hstopped]
  cases hpeer : s.peers.get peerId with
  | none => exact .inl rfl
  | some e =>
      by_cases hbusy : (s.entries e).inflight.isSome = true
      · exact .inl (if_pos hbusy)
      · refine .inr ⟨e, by simpa using hstopped, rfl, by simpa using hbusy, if_neg hbusy⟩

/-- The round that `runRound` starts, with the state it starts in. -/
def runRoundStarts (s : State Registry SyncState) (peerId : String) :
    List (State Registry SyncState × EntryId) :=
  if s.stopped then []
  else
    match s.peers.get peerId with
    | none => []
    | some e => if (s.entries e).inflight.isSome then [] else [(s, e)]

/-- The rounds that `runRounds` starts, each with the state it starts in. -/
def runRoundsStarts : State Registry SyncState → List String →
    List (State Registry SyncState × EntryId)
  | _, [] => []
  | s, peerId :: rest =>
      runRoundStarts s peerId ++ runRoundsStarts (runRound opts s peerId).1 rest

/-- The rounds that an action starts, each with the state it starts in. -/
def roundStarts (s : State Registry SyncState) :
    Action Registry → List (State Registry SyncState × EntryId)
  | .connect peerId =>
      if s.stopped then [] else runRoundStarts (replaceEntry opts s peerId) peerId
  | .message peerId message =>
      if s.stopped then []
      else
        let found := entryFor opts s peerId
        if (found.1.entries found.2).inflight.isSome then []
        else
          let received := handOver opts found.1 found.2 message
          if received.2 then runRoundStarts received.1 peerId else []
  | .republish => if s.stopped then [] else runRoundsStarts opts s s.peers.keys
  | .timerFires t =>
      runRoundsStarts opts { s with timers := s.timers.free t, tickTimer := none } s.peers.keys
  | .microtask =>
      match s.microtasks with
      | [] => []
      | peerId :: rest => runRoundStarts { s with microtasks := rest } peerId
  | _ => []

variable {opts} {D : Conditions Registry SyncState}

variable (opts D) in
theorem runRound_moves (s : State Registry SyncState) (peerId : String) :
    ReflTransGen (Move opts D) s (runRound opts s peerId).1 := by
  rcases runRound_cases opts s peerId with h | ⟨e, hstopped, hpeer, hidle, h⟩
  · rw [h]
  · rw [h]
    exact .single (.start hpeer hidle hstopped)

variable (opts D) in
theorem runRounds_moves (s : State Registry SyncState) (peerIds : List String) :
    ReflTransGen (Move opts D) s (runRounds opts s peerIds).1 := by
  induction peerIds generalizing s with
  | nil => exact .refl
  | cons peerId rest ih => exact (runRound_moves opts D s peerId).trans (ih _)

theorem abortAll_quiet (entries : List EntryId) (s : State Registry SyncState) :
    Quiet s (abortAll s entries) := by
  induction entries generalizing s with
  | nil => exact Quiet.abort s none
  | cons e rest ih => exact (Quiet.abort s _).trans (ih _)

theorem scheduleNextTick_quiet (s : State Registry SyncState) :
    Quiet s (scheduleNextTick s) := by
  unfold scheduleNextTick
  split
  · exact Quiet.abort s none
  · exact Quiet.of_eq rfl rfl rfl rfl rfl id rfl

theorem replaceEntry_moves {s : State Registry SyncState} {peerId : String}
    (hadd : ∀ c, D.add (s.abort c) peerId) :
    ReflTransGen (Move opts D) s (replaceEntry opts s peerId) := by
  unfold replaceEntry
  cases hpeer : s.peers.get peerId with
  | none =>
      have hmove : Move opts D s (s.addPeerEntry opts peerId ((s.peers.get peerId).map s.entries)) :=
        .add peerId (hadd none)
      rw [hpeer] at hmove
      exact .single hmove
  | some e =>
      have hmove : Move opts D _ _ := .add peerId (hadd (s.entries e).abortController)
      rw [State.abort_peers, State.abort_entries, hpeer] at hmove
      exact .trans (.single (.quiet (Quiet.abort s _))) (.single hmove)

variable (opts) in
theorem entryFor_moves {s : State Registry SyncState} {peerId : String}
    (hadd : s.peers.get peerId = none → D.add s peerId) :
    ReflTransGen (Move opts D) s (entryFor opts s peerId).1 ∧
      (entryFor opts s peerId).1.peers.get peerId = some (entryFor opts s peerId).2 ∧
      (entryFor opts s peerId).1.stopped = s.stopped := by
  unfold entryFor
  cases hpeer : s.peers.get peerId with
  | some e => exact ⟨.refl, hpeer, rfl⟩
  | none =>
      have hmove : Move opts D _ _ := .add peerId (hadd hpeer)
      rw [hpeer] at hmove
      exact ⟨.single hmove, by simp [State.addPeerEntry], rfl⟩

theorem bufferMessage_move {s : State Registry SyncState} {peerId : String} {e : EntryId}
    (message : Message) (hpeer : s.peers.get peerId = some e)
    (hbusy : (s.entries e).inflight.isSome) :
    Move opts D s (bufferMessage s peerId e message) := by
  unfold bufferMessage
  cases hroom : overflows (s.entries e) message with
  | true => exact .refuse hpeer
  | false => exact .push hpeer hbusy hroom

theorem onMessageFromPeer_moves {s : State Registry SyncState} {peerId : String}
    (message : Message) (hadd : s.stopped = false → s.peers.get peerId = none → D.add s peerId) :
    ReflTransGen (Move opts D) s (onMessageFromPeer opts s peerId message) := by
  unfold onMessageFromPeer
  cases hstopped : s.stopped with
  | true => exact .refl
  | false =>
      obtain ⟨hfound, hpeer, hfoundStopped⟩ := entryFor_moves opts (hadd hstopped)
      simp only [Bool.false_eq_true, if_false]
      generalize entryFor opts s peerId = found at *
      cases hbusy : (found.1.entries found.2).inflight.isSome with
      | true => exact hfound.tail (bufferMessage_move message hpeer hbusy)
      | false =>
          have hidle : (found.1.entries found.2).inflight = none := by simpa using hbusy
          have hhanded : ReflTransGen (Move opts D) s (handOver opts found.1 found.2 message).1 :=
            hfound.tail (.handOver hpeer hidle (hfoundStopped.trans hstopped))
          simp only [Bool.false_eq_true, if_false]
          cases (handOver opts found.1 found.2 message).2 with
          | false => exact hhanded
          | true => exact hhanded.trans (runRound_moves opts D _ peerId)

theorem onPeerConnect_moves {s : State Registry SyncState} {peerId : String}
    (hadd : s.stopped = false → ∀ c, D.add (s.abort c) peerId) :
    ReflTransGen (Move opts D) s (onPeerConnect opts s peerId) := by
  unfold onPeerConnect
  cases hstopped : s.stopped with
  | true => exact .refl
  | false => exact (replaceEntry_moves (hadd hstopped)).trans (runRound_moves opts D _ peerId)

theorem onPeerDisconnect_moves (s : State Registry SyncState) (peerId : String) :
    ReflTransGen (Move opts D) s (onPeerDisconnect s peerId) := by
  unfold onPeerDisconnect
  cases s.peers.get peerId with
  | none => exact .refl
  | some e => exact .trans (.single (.quiet (Quiet.abort s _))) (.single (.delete peerId))

theorem start_quiet (s : State Registry SyncState) : Quiet s (start s) := by
  have hstarted : Quiet s { s with started := true } := Quiet.of_eq rfl rfl rfl rfl rfl id rfl
  unfold start
  split
  · exact Quiet.abort s none
  · split
    · exact hstarted
    · exact hstarted.trans (scheduleNextTick_quiet _)

theorem stop_quiet (s : State Registry SyncState) : Quiet s (stop s) := by
  unfold stop
  refine Quiet.trans ?_ ((abortAll_quiet _ _).trans (Quiet.of_eq rfl rfl rfl rfl rfl id rfl))
  exact Quiet.of_eq rfl rfl rfl rfl rfl (fun h => Bool.noConfusion h) rfl

theorem republish_moves (s : State Registry SyncState) :
    ReflTransGen (Move opts D) s (republish opts s) := by
  unfold republish
  cases s.stopped with
  | true => exact .refl
  | false => exact runRounds_moves opts D s s.peers.keys

theorem hangUpSettles_moves {s : State Registry SyncState} {r : RoundId} {round : Round}
    (hround : s.rounds.get r = some round) (hphase : round.phase = .hangingUp) :
    ReflTransGen (Move opts D) s (hangUpSettles s r round) := by
  refine .trans (.single (.hungUp hround hphase)) ?_
  unfold hangUpSettles
  dsimp only
  split
  · exact .refl
  · split
    · exact .single (.delete _)
    · exact .refl

theorem tick_moves (s : State Registry SyncState) : ReflTransGen (Move opts D) s (tick opts s) :=
  (runRounds_moves opts D s s.peers.keys).tail
    (.quiet (Quiet.of_eq rfl rfl rfl rfl rfl id rfl))

theorem timerFires_moves {s s' : State Registry SyncState} {t : Nat}
    (hstep : step opts s (.timerFires t) = some s') : ReflTransGen (Move opts D) s s' := by
  obtain rfl := step_timerFires hstep
  refine .trans (.single (.quiet ?_)) (tick_moves _)
  exact Quiet.of_eq rfl rfl rfl rfl rfl id rfl

theorem tickResumes_quiet {s s' : State Registry SyncState} {t : Nat}
    (hstep : step opts s (.tickResumes t) = some s') : Quiet s s' := by
  obtain rfl := step_tickResumes hstep
  refine Quiet.trans ?_ (scheduleNextTick_quiet _)
  exact Quiet.of_eq rfl rfl rfl rfl rfl id rfl

theorem microtask_moves {s s' : State Registry SyncState}
    (hstep : step opts s .microtask = some s') : ReflTransGen (Move opts D) s s' := by
  obtain ⟨peerId, rest, rfl⟩ := step_microtask hstep
  refine .trans (.single (.quiet ?_)) (runRound_moves opts D _ peerId)
  exact Quiet.of_eq rfl rfl rfl rfl rfl id rfl

theorem stopResumes_moves {s s' : State Registry SyncState} {k : Nat}
    (hstep : step opts s (.stopResumes k) = some s') : ReflTransGen (Move opts D) s s' := by
  obtain rfl := step_stopResumes hstep
  have hfree : Quiet s { s with stops := s.stops.free k } :=
    Quiet.of_eq rfl rfl rfl rfl rfl id rfl
  exact .trans (.single (.quiet hfree)) (.single .clear)

/-- Does the action create an entry for the peer? -/
def Creates (s : State Registry SyncState) : Action Registry → String → Prop
  | .connect peerId, p => s.stopped = false ∧ peerId = p
  | .message peerId _, p => s.stopped = false ∧ peerId = p ∧ s.peers.get p = none
  | _, _ => False

/-- Every step is a sequence of moves, which satisfy the conditions if they are
met where the action adds an entry, settles a send or finishes a round. -/
theorem step_moves {s s' : State Registry SyncState} {a : Action Registry}
    (hadd : ∀ p, Creates s a p → ∀ c, D.add (s.abort c) p)
    (hsettle : ∀ r result, a = .sendSettles r result → D.settle s r result)
    (hfinish : ∀ r, a = .roundFinishes r → D.finish s r)
    (hstep : step opts s a = some s') : ReflTransGen (Move opts D) s s' := by
  cases a with
  | start =>
      obtain rfl := Option.some.inj hstep
      exact .single (.quiet (start_quiet s))
  | stop =>
      obtain rfl := Option.some.inj hstep
      exact .single (.quiet (stop_quiet s))
  -- a connection and a message may add an entry, so they need the condition
  | connect peerId =>
      obtain rfl := Option.some.inj hstep
      exact onPeerConnect_moves fun hstopped => hadd peerId ⟨hstopped, rfl⟩
  | disconnect peerId =>
      obtain rfl := Option.some.inj hstep
      exact onPeerDisconnect_moves s peerId
  | message peerId message =>
      obtain rfl := Option.some.inj hstep
      exact onMessageFromPeer_moves message fun hstopped hpeer =>
        hadd peerId ⟨hstopped, rfl, hpeer⟩ none
  | republish =>
      obtain rfl := Option.some.inj hstep
      exact republish_moves s
  | timerFires t => exact timerFires_moves hstep
  | tickResumes t => exact .single (.quiet (tickResumes_quiet hstep))
  | microtask => exact microtask_moves hstep
  | roundTimeout r =>
      -- the signal of the timeout is aborted, the round ends later
      obtain rfl := step_roundTimeout hstep
      exact .single (.quiet (Quiet.abort s _))
  | sendSettles r result =>
      obtain ⟨round, message, hround, hphase, rfl⟩ := step_sendSettles hstep
      exact .single (.sendSettles result hround hphase (hsettle r result rfl))
  | hangUpSettles r =>
      obtain ⟨round, hround, hphase, rfl⟩ := step_hangUpSettles hstep
      exact hangUpSettles_moves hround hphase
  | roundFinishes r =>
      obtain ⟨round, rejected, hround, hphase, rfl⟩ := step_roundFinishes hstep
      exact .single (.finish hround hphase (hfinish r rfl))
  | overflowSettles o =>
      obtain ⟨overflow, -, rfl⟩ := step_overflowSettles hstep
      -- the pending hang-up is forgotten, and the entry it names goes with it
      exact .trans (.single (.forget o)) (.single (.delete _))
  | stopResumes k => exact stopResumes_moves hstep
  | registryChanges registry =>
      obtain rfl := Option.some.inj hstep
      exact .single (.quiet (Quiet.of_eq rfl rfl rfl rfl rfl id rfl))
  | timePasses ms =>
      obtain rfl := Option.some.inj hstep
      exact .single (.quiet (Quiet.of_eq rfl rfl rfl rfl rfl id rfl))

/-- What every move preserves, a sequence of moves preserves. -/
theorem moves_invariant {I : State Registry SyncState → Prop} {s s' : State Registry SyncState}
    (hmove : ∀ s s', I s → Move opts D s s' → I s') (h : ReflTransGen (Move opts D) s s')
    (hI : I s) : I s' := by
  induction h with
  | refl => exact hI
  | tail _ hlast ih => exact hmove _ _ ih hlast

/-- An invariant of the moves is an invariant of all runs. -/
theorem reachable_of_moves {I : State Registry SyncState → Prop} {registry : Registry}
    (hinit : I (initialState opts registry))
    (hmove : ∀ s s', I s → Move opts {} s s' → I s') {s : State Registry SyncState}
    (h : (coordinator opts registry).Reachable s) : I s := by
  refine Machine.Reachable.invariant hinit ?_ h
  intro s a s' hI hstep
  have hmoves : ReflTransGen (Move opts {}) s s' :=
    step_moves (fun _ _ _ => trivial) (fun _ _ _ => trivial) (fun _ _ => trivial) hstep
  exact moves_invariant hmove hmoves hI

end

end ThinkLocal.RegistrySync
