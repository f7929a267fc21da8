import ThinkLocal.RegistrySync.Links

/-!
# The anti-entropy loop

`tick` starts a round for every peer, awaits them all and only then arms the
next timer.  A round that rejects therefore ends the loop.  A round rejects if
its drain throws, or if the value it caught has no text; `AwaitedRoundsResolve`
excludes both for the rounds that a tick awaits, and under it the loop stays
alive from `start` to `stop` (`loop_alive`).  One message that does not decode,
arriving while the round of a tick is in flight, ends it (`loop_dies`).
-/

namespace ThinkLocal.RegistrySync

open Foundation

variable {Registry SyncState : Type*}
variable {opts : RegistrySyncCoordinatorOptions Registry SyncState}

/-! ## The loop -/

/-- From `start` to `stop` a timer is armed or a tick awaits its rounds, and what
the ticks await is outstanding and will not reject. -/
structure LoopAlive (s : State Registry SyncState) : Prop where
  alive : s.started = true → s.stopped = false →
    (∃ t, s.timers.get t = some ()) ∨ ∃ k pending, s.ticks.get k = some pending
  awaits : ∀ k pending, s.ticks.get k = some pending →
    ∀ r ∈ pending, ∃ round, s.rounds.get r = some round ∧ round.phase ≠ .finished true

/-- Are all messages received without an exception? -/
def decodesAll (reg : SyncRegistry Registry SyncState) :
    Registry → SyncState → List Message → Bool
  | _, _, [] => true
  | registry, state, msg :: rest =>
      match reg.receiveSyncMessage registry state msg with
      | (registry', .ok nextState) => decodesAll reg registry' nextState rest
      | (_, .error _) => false

theorem drain_threw_eq (reg : SyncRegistry Registry SyncState) (registry : Registry)
    (state : SyncState) (messages : List Message) :
    (drain reg registry state messages).threw = !decodesAll reg registry state messages := by
  induction messages generalizing registry state with
  | nil => rfl
  | cons msg rest ih =>
      unfold drain decodesAll
      rcases reg.receiveSyncMessage registry state msg with ⟨registry', result⟩
      cases result with
      | ok nextState => exact ih registry' nextState
      | error err => rfl

/-- If generating the next message of the entry throws, the thrown value has a text. -/
def generatesText (opts : RegistrySyncCoordinatorOptions Registry SyncState)
    (s : State Registry SyncState) (e : EntryId) : Bool :=
  match opts.registry.generateSyncMessage s.registry (s.entries e).state with
  | .ok _ => true
  | .error err => err.text.isSome

/-- Every message waiting for the end of the round is received without an exception. -/
def DrainResolves (opts : RegistrySyncCoordinatorOptions Registry SyncState)
    (s : State Registry SyncState) (r : RoundId) : Prop :=
  s.stopped = false → ∀ round ∈ s.rounds.get r, ∀ e ∈ s.peers.get round.peerId,
    (s.entries e).generation = round.generation →
      decodesAll opts.registry s.registry (s.entries e).state (s.entries e).inboundBuffer = true

instance (s : State Registry SyncState) (r : RoundId) : Decidable (DrainResolves opts s r) := by
  unfold DrainResolves
  infer_instance

/-- No tick awaits the round. -/
def NotAwaited (s : State Registry SyncState) (r : RoundId) : Prop :=
  ∀ k pending, s.ticks.get k = some pending → r ∉ pending

instance (s : State Registry SyncState) (r : RoundId) : Decidable (NotAwaited s r) :=
  Arena.decidableForall s.ticks fun _ pending => r ∉ pending

/-- The action makes no round reject that a tick awaits or starts. -/
def AwaitedRoundsResolve (opts : RegistrySyncCoordinatorOptions Registry SyncState)
    (s : State Registry SyncState) : Action Registry → Prop
  | .timerFires t => ∀ x ∈ roundStarts opts s (.timerFires t), generatesText opts x.1 x.2 = true
  | .sendSettles r (some err) => NotAwaited s r ∨ err.text.isSome
  | .roundFinishes r => NotAwaited s r ∨ DrainResolves opts s r
  | _ => True

instance (s : State Registry SyncState) :
    ∀ a : Action Registry, Decidable (AwaitedRoundsResolve opts s a)
  | .timerFires t => inferInstanceAs (Decidable
      (∀ x ∈ roundStarts opts s (.timerFires t), generatesText opts x.1 x.2 = true))
  | .sendSettles r (some err) => inferInstanceAs (Decidable (NotAwaited s r ∨ err.text.isSome))
  | .roundFinishes r => inferInstanceAs (Decidable (NotAwaited s r ∨ DrainResolves opts s r))
  | .start | .stop | .connect _ | .disconnect _ | .message _ _ | .republish | .tickResumes _
  | .microtask | .roundTimeout _ | .sendSettles _ none | .hangUpSettles _ | .overflowSettles _
  | .stopResumes _ | .registryChanges _ | .timePasses _ => inferInstanceAs (Decidable True)

/-! ## Steps outside the loop -/

/-- No timer or tick changes, and no outstanding round ends or turns to reject. -/
structure SameLoop (s s' : State Registry SyncState) : Prop where
  ticks : s'.ticks = s.ticks
  timers : s'.timers = s.timers
  tickTimer : s'.tickTimer = s.tickTimer
  started : s'.started = s.started
  stopped : s'.stopped = s.stopped
  rounds : ∀ r round, s.rounds.get r = some round → round.phase ≠ .finished true →
    ∃ round', s'.rounds.get r = some round' ∧ round'.phase ≠ .finished true

theorem sameLoop_of_rounds {s s' : State Registry SyncState} (hticks : s'.ticks = s.ticks)
    (htimers : s'.timers = s.timers) (htickTimer : s'.tickTimer = s.tickTimer)
    (hstarted : s'.started = s.started) (hstopped : s'.stopped = s.stopped)
    (hrounds : s'.rounds = s.rounds) : SameLoop s s' where
  ticks := hticks
  timers := htimers
  tickTimer := htickTimer
  started := hstarted
  stopped := hstopped
  rounds r round hround hphase := ⟨round, by rw [hrounds, hround], hphase⟩

theorem SameLoop.refl (s : State Registry SyncState) : SameLoop s s :=
  sameLoop_of_rounds rfl rfl rfl rfl rfl rfl

theorem SameLoop.trans {s₁ s₂ s₃ : State Registry SyncState} (h : SameLoop s₁ s₂)
    (h' : SameLoop s₂ s₃) : SameLoop s₁ s₃ where
  ticks := h'.ticks.trans h.ticks
  timers := h'.timers.trans h.timers
  tickTimer := h'.tickTimer.trans h.tickTimer
  started := h'.started.trans h.started
  stopped := h'.stopped.trans h.stopped
  rounds r round hround hphase := by
    obtain ⟨mid, hmid, hmidPhase⟩ := h.rounds r round hround hphase
    exact h'.rounds r mid hmid hmidPhase

theorem abort_sameLoop (s : State Registry SyncState) (c : Option RoundId) :
    SameLoop s (s.abort c) := by
  cases c with
  | none => exact SameLoop.refl s
  | some r =>
      refine ⟨rfl, rfl, rfl, rfl, rfl, fun r' round hround hphase => ?_⟩
      show ∃ round', (s.rounds.modify r _).get r' = some round' ∧ _
      rw [Arena.get_modify, hround]
      split
      · exact ⟨_, rfl, hphase⟩
      · exact ⟨_, rfl, hphase⟩

/-- Setting the phase of a round to one that does not reject. -/
theorem setPhase_sameLoop {s s' : State Registry SyncState} {r : RoundId} {phase : Phase}
    (hphase : phase ≠ .finished true) (hticks : s'.ticks = s.ticks)
    (htimers : s'.timers = s.timers) (htickTimer : s'.tickTimer = s.tickTimer)
    (hstarted : s'.started = s.started) (hstopped : s'.stopped = s.stopped)
    (hrounds : s'.rounds = s.rounds.modify r fun round => { round with phase := phase }) :
    SameLoop s s' := by
  refine ⟨hticks, htimers, htickTimer, hstarted, hstopped, fun r' round hround hold => ?_⟩
  rw [hrounds, Arena.get_modify, hround]
  split
  · exact ⟨_, rfl, hphase⟩
  · exact ⟨_, rfl, hold⟩

theorem startRound_sameLoop (s : State Registry SyncState) (peerId : String) (e : EntryId) :
    SameLoop s (startRound opts s peerId e) := by
  refine ⟨rfl, rfl, rfl, rfl, rfl, fun r round hround hphase => ?_⟩
  exact ⟨round, Arena.get_alloc_of_get hround, hphase⟩

theorem runRound_sameLoop (s : State Registry SyncState) (peerId : String) :
    SameLoop s (runRound opts s peerId).1 := by
  rcases runRound_cases opts s peerId with h | ⟨e, -, -, -, h⟩
  · rw [h]
    exact SameLoop.refl s
  · rw [h]
    exact startRound_sameLoop s peerId e

variable (opts) in
theorem runRounds_sameLoop (peerIds : List String) (s : State Registry SyncState) :
    SameLoop s (runRounds opts s peerIds).1 := by
  induction peerIds generalizing s with
  | nil => exact SameLoop.refl s
  | cons peerId rest ih => exact (runRound_sameLoop s peerId).trans (ih _)

theorem replaceEntry_sameLoop (s : State Registry SyncState) (peerId : String) :
    SameLoop s (replaceEntry opts s peerId) := by
  unfold replaceEntry
  split
  · exact sameLoop_of_rounds rfl rfl rfl rfl rfl rfl
  · exact (abort_sameLoop s _).trans (sameLoop_of_rounds rfl rfl rfl rfl rfl rfl)

variable (opts) in
theorem entryFor_sameLoop (s : State Registry SyncState) (peerId : String) :
    SameLoop s (entryFor opts s peerId).1 := by
  unfold entryFor
  split
  · exact SameLoop.refl s
  · exact sameLoop_of_rounds rfl rfl rfl rfl rfl rfl

theorem bufferMessage_sameLoop (s : State Registry SyncState) (peerId : String) (e : EntryId)
    (message : Message) : SameLoop s (bufferMessage s peerId e message) := by
  unfold bufferMessage
  split
  · have hmodify : SameLoop s (s.modifyEntry e fun entry =>
        { entry with lastError := some "inbound sync buffer overflow" }) :=
      sameLoop_of_rounds rfl rfl rfl rfl rfl rfl
    exact (hmodify.trans (abort_sameLoop _ _)).trans (sameLoop_of_rounds rfl rfl rfl rfl rfl rfl)
  · exact sameLoop_of_rounds rfl rfl rfl rfl rfl rfl

theorem handOver_sameLoop (s : State Registry SyncState) (e : EntryId) (message : Message) :
    SameLoop s (handOver opts s e message).1 := by
  unfold handOver
  dsimp only
  split
  · exact sameLoop_of_rounds rfl rfl rfl rfl rfl rfl
  · exact sameLoop_of_rounds rfl rfl rfl rfl rfl rfl

theorem onMessageFromPeer_sameLoop (s : State Registry SyncState) (peerId : String)
    (message : Message) : SameLoop s (onMessageFromPeer opts s peerId message) := by
  have hfound := entryFor_sameLoop opts s peerId
  unfold onMessageFromPeer
  split
  · exact SameLoop.refl s
  · dsimp only
    split
    · exact hfound.trans (bufferMessage_sameLoop _ _ _ _)
    · split
      · exact (hfound.trans (handOver_sameLoop _ _ _)).trans (runRound_sameLoop _ _)
      · exact hfound.trans (handOver_sameLoop _ _ _)

theorem LoopAlive.of_sameLoop {s s' : State Registry SyncState} (h : LoopAlive s)
    (hsame : SameLoop s s') : LoopAlive s' where
  alive hstarted hstopped := by
    rw [hsame.started] at hstarted
    rw [hsame.stopped] at hstopped
    rw [hsame.timers, hsame.ticks]
    exact h.alive hstarted hstopped
  awaits k pending hpending r hr := by
    rw [hsame.ticks] at hpending
    obtain ⟨round, hround, hphase⟩ := h.awaits k pending hpending r hr
    exact hsame.rounds r round hround hphase

/-! ## Rounds that will not reject -/

variable (opts) in
theorem catchRound_resolves (aborted : Bool) {err : Thrown} (entry : PeerSyncEntry SyncState)
    (htext : err.text.isSome) : (catchRound opts aborted err entry).2 ≠ .finished true := by
  obtain ⟨msg, hmsg⟩ := Option.isSome_iff_exists.mp htext
  unfold catchRound
  rw [hmsg]
  dsimp only
  split
  · split <;> simp
  · simp

theorem roundBody_resolves {s : State Registry SyncState} {e : EntryId}
    (htext : generatesText opts s e = true) :
    (roundBody opts s.registry s.now (s.entries e)).2 ≠ .finished true := by
  unfold generatesText at htext
  unfold roundBody
  cases hgenerated : opts.registry.generateSyncMessage s.registry (s.entries e).state with
  | error err =>
      rw [hgenerated] at htext
      exact catchRound_resolves opts false _ htext
  | ok generated =>
      obtain ⟨nextState, message⟩ := generated
      cases message <;> simp

/-- The rounds that a tick starts are outstanding when it comes to await them. -/
theorem runRounds_awaitable (peerIds : List String) (s : State Registry SyncState)
    (htext : ∀ x ∈ runRoundsStarts opts s peerIds, generatesText opts x.1 x.2 = true) :
    ∀ r ∈ (runRounds opts s peerIds).2, ∃ round,
      (runRounds opts s peerIds).1.rounds.get r = some round ∧ round.phase ≠ .finished true := by
  induction peerIds generalizing s with
  | nil => simp [runRounds]
  | cons peerId rest ih =>
      intro r hr
      simp only [runRoundsStarts, List.mem_append] at htext
      simp only [runRounds, List.mem_append, Option.mem_toList] at hr ⊢
      rcases hr with hfirst | hothers
      · rcases runRound_cases opts s peerId with h | ⟨e, hstopped, hpeer, hidle, h⟩
        · rw [h] at hfirst
          cases hfirst
        · have hstarts : (s, e) ∈ runRoundStarts s peerId := by
            simp [runRoundStarts, hstopped, hpeer, hidle]
          have hresolves := roundBody_resolves (htext (s, e) (.inl hstarts))
          rw [h] at hfirst ⊢
          obtain rfl := Option.some.inj hfirst
          exact (runRounds_sameLoop opts rest _).rounds _ _ (Arena.get_alloc_next _ _) hresolves
      · exact ih _ (fun x hx => htext x (.inr hx)) r hothers

/-! ## The step lemma -/

/-- `LoopAlive`, and the timer that `stop` would clear is armed. -/
structure LoopInvariant (s : State Registry SyncState) : Prop extends LoopAlive s where
  timer : ∀ t, s.tickTimer = some t → s.timers.get t = some ()

theorem LoopInvariant.of_sameLoop {s s' : State Registry SyncState} (h : LoopInvariant s)
    (hsame : SameLoop s s') : LoopInvariant s' where
  toLoopAlive := h.toLoopAlive.of_sameLoop hsame
  timer t ht := by
    rw [hsame.tickTimer] at ht
    rw [hsame.timers]
    exact h.timer t ht

theorem LoopInvariant.scheduleNextTick {s : State Registry SyncState}
    (hawaits : ∀ k pending, s.ticks.get k = some pending →
      ∀ r ∈ pending, ∃ round, s.rounds.get r = some round ∧ round.phase ≠ .finished true)
    (htimer : ∀ t, s.tickTimer = some t → s.timers.get t = some ()) :
    LoopInvariant (scheduleNextTick s) := by
  unfold RegistrySync.scheduleNextTick
  split
  case isTrue hstopped =>
    refine ⟨⟨fun _ hrunning => ?_, hawaits⟩, htimer⟩
    rw [hstopped] at hrunning
    cases hrunning
  case isFalse =>
    refine ⟨⟨fun _ _ => .inl ⟨_, Arena.get_alloc_next _ _⟩, hawaits⟩, fun t ht => ?_⟩
    obtain rfl := Option.some.inj ht
    exact Arena.get_alloc_next _ _

theorem LoopInvariant.start {s : State Registry SyncState} (h : LoopInvariant s) :
    LoopInvariant (start s) := by
  unfold RegistrySync.start
  split
  · exact h
  · split
    case isTrue hset =>
      obtain ⟨t, ht⟩ := Option.isSome_iff_exists.mp hset
      exact ⟨⟨fun _ _ => .inl ⟨t, h.timer t ht⟩, h.awaits⟩, h.timer⟩
    case isFalse => exact LoopInvariant.scheduleNextTick h.awaits h.timer

theorem abortAll_sameLoop (entries : List EntryId) (s : State Registry SyncState) :
    SameLoop s (abortAll s entries) := by
  induction entries generalizing s with
  | nil => exact SameLoop.refl s
  | cons e rest ih => exact (abort_sameLoop s _).trans (ih _)

theorem LoopInvariant.stop {s : State Registry SyncState} (h : LoopInvariant s) :
    LoopInvariant (stop s) := by
  have hstopped (timers : Arena Unit) : LoopInvariant
      { s with stopped := true, timers := timers, tickTimer := none } := by
    refine ⟨⟨fun _ hrunning => Bool.noConfusion hrunning, h.awaits⟩, fun _ ht => ?_⟩
    cases ht
  unfold RegistrySync.stop
  dsimp only
  exact ((hstopped _).of_sameLoop (abortAll_sameLoop _ _)).of_sameLoop
    (sameLoop_of_rounds rfl rfl rfl rfl rfl rfl)

theorem LoopInvariant.tick {s : State Registry SyncState} (h : LoopInvariant s) (t : Nat)
    (htext : ∀ x ∈ roundStarts opts s (.timerFires t), generatesText opts x.1 x.2 = true) :
    LoopInvariant (tick opts { s with timers := s.timers.free t, tickTimer := none }) := by
  have hsame := runRounds_sameLoop opts s.peers.keys
    { s with timers := s.timers.free t, tickTimer := none }
  refine ⟨⟨fun _ _ => .inr ⟨_, _, Arena.get_alloc_next _ _⟩, ?_⟩, fun t' ht' => ?_⟩
  · intro k pending hpending r hr
    rcases Arena.get_alloc_eq_some hpending with ⟨-, rfl⟩ | hold
    · exact runRounds_awaitable s.peers.keys _ htext r hr
    · rw [hsame.ticks] at hold
      obtain ⟨round, hround, hphase⟩ := h.awaits k pending hold r hr
      exact hsame.rounds r round hround hphase
  · have htickTimer : none = some t' := hsame.tickTimer.symm.trans ht'
    cases htickTimer

/-- The settling of a round that no tick awaits, or that does not reject, leaves
every tick running, and what is still awaited is outstanding. -/
theorem LoopInvariant.settle {s s' : State Registry SyncState} (h : LoopInvariant s) {r : RoundId}
    {rejected : Bool} (hresolves : NotAwaited s r ∨ rejected = false)
    (hticks : s'.ticks = (settleTicks s r rejected).ticks) (htimers : s'.timers = s.timers)
    (htickTimer : s'.tickTimer = s.tickTimer) (hstarted : s'.started = s.started)
    (hstopped : s'.stopped = s.stopped) (hrounds : s'.rounds = s.rounds.free r) :
    LoopInvariant s' := by
  -- the round leaves what the ticks await, and no tick fails
  have hget : ∀ k pending, s.ticks.get k = some pending →
      s'.ticks.get k = some (pending.filter (· ≠ r)) := by
    intro k pending hpending
    rw [hticks]
    simp only [settleTicks, Arena.get_filterMap, hpending, Option.bind_some]
    by_cases hr : r ∈ pending
    · rcases hresolves with hnot | hfalse
      · exact absurd hr (hnot k pending hpending)
      · rw [if_pos hr, hfalse]
        rfl
    · rw [if_neg hr, List.filter_eq_self.mpr]
      intro r' hr'
      have hne : r' ≠ r := fun heq => hr (heq ▸ hr')
      simpa using hne
  -- nor is there a tick that was not there before
  have hback : ∀ k pending', s'.ticks.get k = some pending' →
      ∃ pending, s.ticks.get k = some pending ∧ pending' = pending.filter (· ≠ r) := by
    intro k pending' hpending'
    cases hpending : s.ticks.get k with
    | none =>
        rw [hticks] at hpending'
        simp [settleTicks, hpending] at hpending'
    | some pending =>
        rw [hget k pending hpending] at hpending'
        exact ⟨pending, rfl, (Option.some.inj hpending').symm⟩
  refine ⟨⟨fun hs hrunning => ?_, fun k pending' hpending' r' hr' => ?_⟩, fun t ht => ?_⟩
  · rw [hstarted] at hs
    rw [hstopped] at hrunning
    rcases h.alive hs hrunning with ⟨t, ht⟩ | ⟨k, pending, hpending⟩
    · exact .inl ⟨t, by rw [htimers, ht]⟩
    · exact .inr ⟨k, _, hget k pending hpending⟩
  · obtain ⟨pending, hpending, rfl⟩ := hback k pending' hpending'
    obtain ⟨hmem, hne⟩ := List.mem_filter.mp hr'
    obtain ⟨round, hround, hphase⟩ := h.awaits k pending hpending r' hmem
    refine ⟨round, ?_, hphase⟩
    rw [hrounds, Arena.get_free_of_ne (by simpa using hne), hround]
  · rw [htickTimer] at ht
    rw [htimers]
    exact h.timer t ht

variable (opts) in
theorem drainEntry_loop (s : State Registry SyncState) (peerId : String) (e : EntryId) :
    (drainEntry opts s peerId e).1.ticks = s.ticks ∧
      (drainEntry opts s peerId e).1.timers = s.timers ∧
      (drainEntry opts s peerId e).1.tickTimer = s.tickTimer ∧
      (drainEntry opts s peerId e).1.started = s.started := by
  unfold drainEntry
  dsimp only
  split
  · split <;> exact ⟨rfl, rfl, rfl, rfl⟩
  · exact ⟨rfl, rfl, rfl, rfl⟩

theorem LoopInvariant.finish {s : State Registry SyncState} (h : LoopInvariant s) {r : RoundId}
    {round : Round} {rejected : Bool} (hround : s.rounds.get r = some round)
    (hphase : round.phase = .finished rejected)
    (hresolves : NotAwaited s r ∨ DrainResolves opts s r) :
    LoopInvariant (finishRound opts s r round rejected) := by
  -- an awaited round was not rejected before its drain
  have hbody : NotAwaited s r ∨ rejected = false := by
    by_cases hawaited : NotAwaited s r
    · exact .inl hawaited
    · simp only [NotAwaited, not_forall, not_not] at hawaited
      obtain ⟨k, pending, hpending, hr⟩ := hawaited
      obtain ⟨round', hround', hnot⟩ := h.awaits k pending hpending r hr
      obtain rfl := Option.some.inj (hround'.symm.trans hround)
      rw [hphase] at hnot
      cases rejected with
      | true => exact absurd rfl hnot
      | false => exact .inr rfl
  rcases finishRound_cases opts s r round rejected with ⟨-, hfinish⟩ | ⟨e, hmatches, hfinish⟩
  · rw [hfinish]
    exact h.settle hbody rfl rfl rfl rfl rfl rfl
  · obtain ⟨hticks, htimers, htickTimer, hstarted⟩ := drainEntry_loop opts
      { s with rounds := s.rounds.free r } round.peerId e
    obtain ⟨-, -, hrounds, -, hstopped, -⟩ := drainEntry_frame opts
      { s with rounds := s.rounds.free r } round.peerId e
    have hdrain : NotAwaited s r ∨
        (drainEntry opts { s with rounds := s.rounds.free r } round.peerId e).2 = false := by
      refine hresolves.imp_right fun hdecodes => ?_
      by_cases hwaits : (s.entries e).inboundBuffer ≠ [] ∧ s.stopped = false
      · obtain ⟨hthrew, -⟩ := drainEntry_waiting opts { s with rounds := s.rounds.free r }
          round.peerId hwaits.1 hwaits.2
        have hall := hdecodes hwaits.2 round hround e hmatches.1 hmatches.2
        rw [hthrew, drain_threw_eq, hall]
        rfl
      · rw [drainEntry_nothing opts { s with rounds := s.rounds.free r } round.peerId hwaits]
    have hboth : NotAwaited s r ∨ (rejected ||
        (drainEntry opts { s with rounds := s.rounds.free r } round.peerId e).2) = false := by
      rcases hbody with hnot | hfalse
      · exact .inl hnot
      · exact hdrain.imp_right fun hthrew => by rw [hfalse, hthrew]; rfl
    rw [hfinish]
    refine h.settle hboth ?_ htimers htickTimer hstarted hstopped hrounds
    simp only [settleTicks, hticks]

theorem LoopInvariant.sendSettles {s : State Registry SyncState} (h : LoopInvariant s)
    {r : RoundId} {round : Round} {message : Message} {result : Option Thrown}
    (htext : ∀ err, result = some err → NotAwaited s r ∨ err.text.isSome) :
    LoopInvariant (sendSettles opts s r round message result) := by
  cases result with
  | none =>
      exact h.of_sameLoop
        (setPhase_sameLoop (r := r) (by simp : Phase.finished false ≠ .finished true)
          rfl rfl rfl rfl rfl rfl)
  | some err =>
      rcases htext err rfl with hnot | hsome
      · refine ⟨⟨h.alive, fun k pending hpending r' hr' => ?_⟩, h.timer⟩
        obtain ⟨round', hround', hphase'⟩ := h.awaits k pending hpending r' hr'
        have hne : r' ≠ r := fun heq => hnot k pending hpending (heq ▸ hr')
        exact ⟨round', (if_neg hne).trans hround', hphase'⟩
      · exact h.of_sameLoop
          (setPhase_sameLoop (r := r) (catchRound_resolves opts round.aborted
            (s.entries round.entry) hsome) rfl rfl rfl rfl rfl rfl)

theorem LoopInvariant.connect {s : State Registry SyncState} (h : LoopInvariant s)
    (peerId : String) : LoopInvariant (onPeerConnect opts s peerId) := by
  unfold onPeerConnect
  split
  · exact h
  · exact h.of_sameLoop ((replaceEntry_sameLoop s peerId).trans (runRound_sameLoop _ _))

theorem LoopInvariant.disconnect {s : State Registry SyncState} (h : LoopInvariant s)
    (peerId : String) : LoopInvariant (onPeerDisconnect s peerId) := by
  unfold onPeerDisconnect
  split
  · exact h
  · exact h.of_sameLoop
      ((abort_sameLoop s _).trans (sameLoop_of_rounds rfl rfl rfl rfl rfl rfl))

theorem LoopInvariant.republish {s : State Registry SyncState} (h : LoopInvariant s) :
    LoopInvariant (RegistrySync.republish opts s) := by
  unfold RegistrySync.republish
  split
  · exact h
  · exact h.of_sameLoop (runRounds_sameLoop opts _ s)

theorem LoopInvariant.tickResumes {s s' : State Registry SyncState} (h : LoopInvariant s)
    {k : Nat} (hstep : RegistrySync.step opts s (.tickResumes k) = some s') :
    LoopInvariant s' := by
  obtain rfl := step_tickResumes hstep
  refine LoopInvariant.scheduleNextTick (fun k' pending hpending => ?_) h.timer
  exact h.awaits k' pending (Arena.get_free_eq_some hpending).2

theorem LoopInvariant.microtask {s s' : State Registry SyncState} (h : LoopInvariant s)
    (hstep : RegistrySync.step opts s .microtask = some s') : LoopInvariant s' := by
  obtain ⟨peerId, rest, rfl⟩ := step_microtask hstep
  have hpop : LoopInvariant { s with microtasks := rest } :=
    h.of_sameLoop (sameLoop_of_rounds rfl rfl rfl rfl rfl rfl)
  exact hpop.of_sameLoop (runRound_sameLoop _ _)

theorem LoopInvariant.hangUpSettles {s : State Registry SyncState} (h : LoopInvariant s)
    (r : RoundId) (round : Round) : LoopInvariant (RegistrySync.hangUpSettles s r round) := by
  have hphase : Phase.finished false ≠ .finished true := by simp
  have hset : LoopInvariant { s with
      rounds := s.rounds.modify r fun round => { round with phase := .finished false } } :=
    h.of_sameLoop (setPhase_sameLoop hphase rfl rfl rfl rfl rfl rfl)
  unfold RegistrySync.hangUpSettles
  dsimp only
  split
  · exact hset
  · split
    · exact hset.of_sameLoop (sameLoop_of_rounds rfl rfl rfl rfl rfl rfl)
    · exact hset

theorem LoopInvariant.stopResumes {s s' : State Registry SyncState} (h : LoopInvariant s)
    {k : Nat} (hstep : RegistrySync.step opts s (.stopResumes k) = some s') :
    LoopInvariant s' := by
  obtain rfl := step_stopResumes hstep
  exact h.of_sameLoop (sameLoop_of_rounds rfl rfl rfl rfl rfl rfl)

theorem LoopInvariant.step {s s' : State Registry SyncState} {a : Action Registry}
    (h : LoopInvariant s) (hresolve : AwaitedRoundsResolve opts s a)
    (hstep : step opts s a = some s') : LoopInvariant s' := by
  cases a with
  | start =>
      obtain rfl := Option.some.inj hstep
      exact h.start
  | stop =>
      obtain rfl := Option.some.inj hstep
      exact h.stop
  | connect peerId =>
      obtain rfl := Option.some.inj hstep
      exact h.connect peerId
  | disconnect peerId =>
      obtain rfl := Option.some.inj hstep
      exact h.disconnect peerId
  | message peerId message =>
      obtain rfl := Option.some.inj hstep
      exact h.of_sameLoop (onMessageFromPeer_sameLoop s peerId message)
  | republish =>
      obtain rfl := Option.some.inj hstep
      exact h.republish
  | timerFires t =>
      obtain rfl := step_timerFires hstep
      -- the rounds that the tick starts at once may already reject here
      exact h.tick t hresolve
  | tickResumes k => exact h.tickResumes hstep
  | microtask => exact h.microtask hstep
  | roundTimeout r =>
      obtain rfl := step_roundTimeout hstep
      exact h.of_sameLoop (abort_sameLoop s _)
  | sendSettles r result =>
      obtain ⟨round, message, -, -, rfl⟩ := step_sendSettles hstep
      -- the condition is on failed sends only
      refine h.sendSettles fun err herr => ?_
      rw [herr] at hresolve
      exact hresolve
  | hangUpSettles r =>
      obtain ⟨round, -, -, rfl⟩ := step_hangUpSettles hstep
      exact h.hangUpSettles r round
  | roundFinishes r =>
      obtain ⟨round, rejected, hround, hphase, rfl⟩ := step_roundFinishes hstep
      exact h.finish hround hphase hresolve
  | overflowSettles o =>
      obtain ⟨overflow, -, rfl⟩ := step_overflowSettles hstep
      exact h.of_sameLoop (sameLoop_of_rounds rfl rfl rfl rfl rfl rfl)
  | stopResumes k => exact h.stopResumes hstep
  | registryChanges registry =>
      obtain rfl := Option.some.inj hstep
      exact h.of_sameLoop (sameLoop_of_rounds rfl rfl rfl rfl rfl rfl)
  | timePasses ms =>
      obtain rfl := Option.some.inj hstep
      exact h.of_sameLoop (sameLoop_of_rounds rfl rfl rfl rfl rfl rfl)

/-! ## The loop over a run -/

/-- In every run in which no round that a tick awaits rejects, the loop stays
alive from `start` to `stop`. -/
theorem loop_alive {registry : Registry} {s : State Registry SyncState}
    (h : (coordinator opts registry).ReachableUnder (AwaitedRoundsResolve opts) s) :
    LoopAlive s := by
  have hinv : LoopInvariant s := by
    refine Machine.ReachableUnder.invariant ?_ (fun _ _ _ hI hC hstep => hI.step hC hstep) h
    refine ⟨⟨fun hstarted => Bool.noConfusion hstarted, fun k pending hpending => ?_⟩, ?_⟩
    · simp [coordinator, initialState] at hpending
    · simp [coordinator, initialState]
  exact hinv.toLoopAlive

/-- The registry changes before the timer fires, and a message arrives while the
round of the tick is sending. -/
def tickWithMessage (message : Message) : List (Action Nat) :=
  [.start, .connect "peer", .sendSettles 0 none, .roundFinishes 0, .registryChanges 1,
    .timerFires 0, .message "peer" message, .sendSettles 1 none, .roundFinishes 1]

/-- The message does not decode, and no timer is armed and no tick running ever after. -/
theorem loop_dies :
    ∃ s, (coordinator counterOptions 0).Reachable s ∧ s.started = true ∧ s.stopped = false ∧
      ¬ LoopAlive s := by
  have hrun : ((coordinator counterOptions 0).runFrom (initialState counterOptions 0)
      (tickWithMessage [0])).map (fun s => (s.started, s.stopped,
        decide (∀ t x, s.timers.get t = some x → False),
        decide (∀ k x, s.ticks.get k = some x → False))) =
      some (true, false, true, true) := by decide
  obtain ⟨s, hs, hlook⟩ := Option.map_eq_some_iff.mp hrun
  simp only [Prod.mk.injEq, decide_eq_true_eq] at hlook
  obtain ⟨hstarted, hstopped, htimers, hticks⟩ := hlook
  refine ⟨s, Machine.reachable_of_runFrom hs, hstarted, hstopped, fun h => ?_⟩
  rcases h.alive hstarted hstopped with ⟨t, ht⟩ | ⟨k, pending, hpending⟩
  · exact htimers t () ht
  · exact hticks k pending hpending

/-- The message decodes, and the tick goes on. -/
theorem loop_goes_on :
    ∃ s, (coordinator counterOptions 0).Reachable s ∧ s.started = true ∧
      s.ticks.get 0 = some [] ∧ LoopAlive s := by
  have hrun : ((coordinator counterOptions 0).runFrom (initialState counterOptions 0)
      (tickWithMessage [5])).map (fun s => (s.started, s.ticks.get 0)) =
      some (true, some []) := by decide
  obtain ⟨s, hs, hlook⟩ := Option.map_eq_some_iff.mp hrun
  simp only [Prod.mk.injEq] at hlook
  obtain ⟨hstarted, htick⟩ := hlook
  have hreach : (coordinator counterOptions 0).ReachableUnder
      (AwaitedRoundsResolve counterOptions) s :=
    Machine.ReachableUnder.init.runFrom (by decide) hs
  exact ⟨s, hreach.reachable, hstarted, htick, loop_alive hreach⟩

end ThinkLocal.RegistrySync
