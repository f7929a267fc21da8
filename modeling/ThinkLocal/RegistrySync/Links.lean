import ThinkLocal.RegistrySync.Steps

/-!
# Entries, rounds and the map that links them

Facts about every run of the coordinator, whatever the generations do: an entry
object is under at most one peer id, a round belongs to the peer id under which
its entry stands, and an entry of the map that claims a round in flight is right
about it.
-/

namespace ThinkLocal.RegistrySync

open Foundation Relation

variable {Registry SyncState : Type*}
variable (opts : RegistrySyncCoordinatorOptions Registry SyncState)

/-! ## What the parts of a round leave alone -/

theorem catchRound_frame (aborted : Bool) (err : Thrown) (entry : PeerSyncEntry SyncState) :
    (catchRound opts aborted err entry).1.generation = entry.generation ∧
      (catchRound opts aborted err entry).1.inflight = entry.inflight ∧
      (catchRound opts aborted err entry).1.inboundBuffer = entry.inboundBuffer ∧
      (catchRound opts aborted err entry).1.inboundBufferBytes = entry.inboundBufferBytes ∧
      (catchRound opts aborted err entry).1.converged = entry.converged := by
  unfold catchRound
  split
  · exact ⟨rfl, rfl, rfl, rfl, rfl⟩
  · dsimp only
    split
    · split <;> exact ⟨rfl, rfl, rfl, rfl, rfl⟩
    · exact ⟨rfl, rfl, rfl, rfl, rfl⟩

theorem roundBody_frame (registry : Registry) (now : Nat) (entry : PeerSyncEntry SyncState) :
    (roundBody opts registry now entry).1.generation = entry.generation ∧
      (roundBody opts registry now entry).1.inboundBuffer = entry.inboundBuffer ∧
      (roundBody opts registry now entry).1.inboundBufferBytes = entry.inboundBufferBytes := by
  unfold roundBody
  split
  · exact ⟨rfl, rfl, rfl⟩
  · exact ⟨rfl, rfl, rfl⟩
  · obtain ⟨hgeneration, -, hbuffer, hbytes, -⟩ := catchRound_frame opts false _ entry
    exact ⟨hgeneration, hbuffer, hbytes⟩

/-- The entry that a finishing round clears: the one now under its peer id, if
it has the generation of the round. -/
def Matches (s : State Registry SyncState) (round : Round) (e : EntryId) : Prop :=
  s.peers.get round.peerId = some e ∧ (s.entries e).generation = round.generation

theorem finishRound_cases (s : State Registry SyncState) (r : RoundId) (round : Round)
    (rejected : Bool) :
    ((∀ e, ¬ Matches s round e) ∧
        finishRound opts s r round rejected =
          settleTicks { s with rounds := s.rounds.free r } r rejected) ∨
      ∃ e, Matches s round e ∧
        finishRound opts s r round rejected =
          settleTicks (drainEntry opts { s with rounds := s.rounds.free r } round.peerId e).1 r
            (rejected || (drainEntry opts { s with rounds := s.rounds.free r } round.peerId e).2) := by
  unfold finishRound Matches
  dsimp only
  cases hpeer : s.peers.get round.peerId with
  | none => exact .inl ⟨by simp, rfl⟩
  | some e =>
      by_cases hgeneration : (s.entries e).generation = round.generation
      · exact .inr ⟨e, ⟨rfl, hgeneration⟩, by simp only [if_pos hgeneration]⟩
      · refine .inl ⟨?_, by simp only [if_neg hgeneration]⟩
        rintro e' ⟨he, hgen⟩
        obtain rfl := Option.some.inj he
        exact hgeneration hgen

theorem drainEntry_frame (s : State Registry SyncState) (peerId : String) (e : EntryId) :
    (drainEntry opts s peerId e).1.peers = s.peers ∧
      (drainEntry opts s peerId e).1.nextEntry = s.nextEntry ∧
      (drainEntry opts s peerId e).1.rounds = s.rounds ∧
      (drainEntry opts s peerId e).1.overflows = s.overflows ∧
      (drainEntry opts s peerId e).1.stopped = s.stopped ∧
      ((drainEntry opts s peerId e).1.entries e).generation = (s.entries e).generation ∧
      ((drainEntry opts s peerId e).1.entries e).inflight = none ∧
      ∀ e', e' ≠ e → (drainEntry opts s peerId e).1.entries e' = s.entries e' ∧
        (drainEntry opts s peerId e).1.history e' = s.history e' := by
  unfold drainEntry
  dsimp only
  split
  · split
    all_goals
      refine ⟨rfl, rfl, rfl, rfl, rfl, by simp [State.record, State.modifyEntry],
        by simp [State.record, State.modifyEntry], fun e' he => ?_⟩
      simp [State.record, State.modifyEntry, Function.update_of_ne he]
  · refine ⟨rfl, rfl, rfl, rfl, rfl, by simp, by simp, fun e' he => ?_⟩
    simp [State.modifyEntry, Function.update_of_ne he]

/-- What the drain leaves of an entry on which nothing is drained. -/
theorem drainEntry_nothing (s : State Registry SyncState) (peerId : String) {e : EntryId}
    (hnothing : ¬ ((s.entries e).inboundBuffer ≠ [] ∧ s.stopped = false)) :
    drainEntry opts s peerId e =
      (s.modifyEntry e fun entry => { entry with inflight := none, abortController := none },
        false) := by
  unfold drainEntry
  dsimp only
  rw [if_neg]
  rwa [State.modifyEntry_entries_self]

/-- What the drain leaves of an entry with waiting messages. -/
theorem drainEntry_waiting (s : State Registry SyncState) (peerId : String) {e : EntryId}
    (hwaiting : (s.entries e).inboundBuffer ≠ []) (hstopped : s.stopped = false) :
    let drained := drain opts.registry s.registry (s.entries e).state (s.entries e).inboundBuffer
    (drainEntry opts s peerId e).2 = drained.threw ∧
      (drainEntry opts s peerId e).1.entries e =
        { s.entries e with
          state := drained.state
          inflight := none
          abortController := none
          inboundBuffer := []
          inboundBufferBytes := 0 } ∧
      (drainEntry opts s peerId e).1.history e =
        { s.history e with handed := (s.history e).handed ++ drained.handed } := by
  unfold drainEntry
  simp only [State.modifyEntry_entries_self]
  rw [if_pos ⟨hwaiting, hstopped⟩]
  by_cases hthrew : (drain opts.registry s.registry (s.entries e).state
      (s.entries e).inboundBuffer).threw = true
  · simp [hthrew, State.record, State.modifyEntry]
  · simp [hthrew, State.record, State.modifyEntry]

section

variable (s : State Registry SyncState) (r : RoundId) (round : Round) (rejected : Bool)

theorem finishRound_peers : (finishRound opts s r round rejected).peers = s.peers := by
  rcases finishRound_cases opts s r round rejected with ⟨-, h⟩ | ⟨e, -, h⟩
  · rw [h]; rfl
  · rw [h]
    exact (drainEntry_frame opts _ _ _).1

theorem finishRound_nextEntry :
    (finishRound opts s r round rejected).nextEntry = s.nextEntry := by
  rcases finishRound_cases opts s r round rejected with ⟨-, h⟩ | ⟨e, -, h⟩
  · rw [h]; rfl
  · rw [h]
    exact (drainEntry_frame opts _ _ _).2.1

theorem finishRound_rounds :
    (finishRound opts s r round rejected).rounds = s.rounds.free r := by
  rcases finishRound_cases opts s r round rejected with ⟨-, h⟩ | ⟨e, -, h⟩
  · rw [h]; rfl
  · rw [h]
    exact (drainEntry_frame opts _ _ _).2.2.1

theorem finishRound_overflows :
    (finishRound opts s r round rejected).overflows = s.overflows := by
  rcases finishRound_cases opts s r round rejected with ⟨-, h⟩ | ⟨e, -, h⟩
  · rw [h]; rfl
  · rw [h]
    exact (drainEntry_frame opts _ _ _).2.2.2.1

theorem finishRound_stopped : (finishRound opts s r round rejected).stopped = s.stopped := by
  rcases finishRound_cases opts s r round rejected with ⟨-, h⟩ | ⟨e, -, h⟩
  · rw [h]; rfl
  · rw [h]
    exact (drainEntry_frame opts _ _ _).2.2.2.2.1

/-- A finishing round leaves every entry it does not match as it is. -/
theorem finishRound_of_not_matches {e : EntryId} (hnot : ¬ Matches s round e) :
    (finishRound opts s r round rejected).entries e = s.entries e ∧
      (finishRound opts s r round rejected).history e = s.history e := by
  rcases finishRound_cases opts s r round rejected with ⟨-, h⟩ | ⟨current, hcurrent, h⟩
  · rw [h]; exact ⟨rfl, rfl⟩
  · rw [h]
    have hne : e ≠ current := fun he => hnot (he ▸ hcurrent)
    exact (drainEntry_frame opts _ _ _).2.2.2.2.2.2.2 e hne

theorem finishRound_generation (e : EntryId) :
    ((finishRound opts s r round rejected).entries e).generation = (s.entries e).generation := by
  rcases finishRound_cases opts s r round rejected with ⟨-, h⟩ | ⟨current, -, h⟩
  · rw [h]; rfl
  · rw [h]
    have hframe := drainEntry_frame opts { s with rounds := s.rounds.free r }
      round.peerId current
    by_cases he : e = current
    · rw [he]
      exact hframe.2.2.2.2.2.1
    · exact congrArg PeerSyncEntry.generation (hframe.2.2.2.2.2.2.2 e he).1

/-- A finishing round clears the entry it matches. -/
theorem finishRound_inflight {e : EntryId} (hmatches : Matches s round e) :
    ((finishRound opts s r round rejected).entries e).inflight = none := by
  rcases finishRound_cases opts s r round rejected with ⟨hnone, -⟩ | ⟨current, hcurrent, h⟩
  · exact absurd hmatches (hnone e)
  · have he : e = current := Option.some.inj (hmatches.1.symm.trans hcurrent.1)
    rw [h, he]
    exact (drainEntry_frame opts _ _ _).2.2.2.2.2.2.1

end

/-! ## Steps that move no link -/

variable {opts}

/-- The part of a round that never changes. -/
def Round.owner (round : Round) : String × EntryId × Nat :=
  (round.peerId, round.entry, round.generation)

/-- The map, the generations, the claims to be in flight and the owners of the
outstanding rounds are the same. -/
structure SameLinks (s s' : State Registry SyncState) : Prop where
  peers : s'.peers = s.peers
  nextEntry : s'.nextEntry = s.nextEntry
  generation : ∀ e, (s'.entries e).generation = (s.entries e).generation
  inflight : ∀ e, (s'.entries e).inflight = (s.entries e).inflight
  rounds : ∀ r, (s'.rounds.get r).map Round.owner = (s.rounds.get r).map Round.owner

theorem SameLinks.round {s s' : State Registry SyncState} (h : SameLinks s s') {r : RoundId}
    {round : Round} (hround : s'.rounds.get r = some round) :
    ∃ old, s.rounds.get r = some old ∧ old.peerId = round.peerId ∧ old.entry = round.entry ∧
      old.generation = round.generation := by
  have howner := h.rounds r
  rw [hround, Option.map_some] at howner
  obtain ⟨old, hold, heq⟩ := Option.map_eq_some_iff.mp howner.symm
  simp only [Round.owner, Prod.mk.injEq] at heq
  exact ⟨old, hold, heq⟩

theorem SameLinks.round_after {s s' : State Registry SyncState} (h : SameLinks s s') {r : RoundId}
    {round : Round} (hround : s.rounds.get r = some round) :
    ∃ new, s'.rounds.get r = some new ∧ new.entry = round.entry := by
  have howner := h.rounds r
  rw [hround, Option.map_some] at howner
  obtain ⟨new, hnew, heq⟩ := Option.map_eq_some_iff.mp howner
  simp only [Round.owner, Prod.mk.injEq] at heq
  exact ⟨new, hnew, heq.2.1⟩

theorem Quiet.sameLinks {s s' : State Registry SyncState} (h : Quiet s s') : SameLinks s s' where
  peers := h.peers
  nextEntry := h.nextEntry
  generation e := by rw [h.entries]
  inflight e := by rw [h.entries]
  rounds r := by
    have hbody := congrArg (Option.map Round.owner) (h.rounds r)
    rwa [Option.map_map, Option.map_map] at hbody

/-- Changing an entry outside its generation and its claim moves no link. -/
theorem modifyEntry_sameLinks (s : State Registry SyncState) (e : EntryId)
    {f : PeerSyncEntry SyncState → PeerSyncEntry SyncState}
    (hgeneration : (f (s.entries e)).generation = (s.entries e).generation)
    (hinflight : (f (s.entries e)).inflight = (s.entries e).inflight) :
    SameLinks s (s.modifyEntry e f) where
  peers := rfl
  nextEntry := rfl
  generation e' := by
    rw [State.modifyEntry_entries]
    split
    · rw [hgeneration, ‹e' = e›]
    · rfl
  inflight e' := by
    rw [State.modifyEntry_entries]
    split
    · rw [hinflight, ‹e' = e›]
    · rfl
  rounds _ := rfl

theorem sameLinks_of_eq {s s' : State Registry SyncState} (hpeers : s'.peers = s.peers)
    (hnext : s'.nextEntry = s.nextEntry) (hentries : s'.entries = s.entries)
    (hrounds : s'.rounds = s.rounds) : SameLinks s s' where
  peers := hpeers
  nextEntry := hnext
  generation e := by rw [hentries]
  inflight e := by rw [hentries]
  rounds r := by rw [hrounds]

theorem SameLinks.trans {s₁ s₂ s₃ : State Registry SyncState} (h : SameLinks s₁ s₂)
    (h' : SameLinks s₂ s₃) : SameLinks s₁ s₃ where
  peers := h'.peers.trans h.peers
  nextEntry := h'.nextEntry.trans h.nextEntry
  generation e := (h'.generation e).trans (h.generation e)
  inflight e := (h'.inflight e).trans (h.inflight e)
  rounds r := (h'.rounds r).trans (h.rounds r)

theorem modify_rounds_sameLinks (s : State Registry SyncState) (r : RoundId) (phase : Phase) :
    SameLinks s { s with
      rounds := s.rounds.modify r fun round => { round with phase := phase } } where
  peers := rfl
  nextEntry := rfl
  generation _ := rfl
  inflight _ := rfl
  rounds r' := by
    rw [Arena.get_modify]
    split
    · rw [Option.map_map]; rfl
    · rfl

variable (opts) in
theorem sendSettles_sameLinks (s : State Registry SyncState) (r : RoundId) (round : Round)
    (message : Message) (result : Option Thrown) :
    SameLinks s (sendSettles opts s r round message result) := by
  cases result with
  | none =>
      have hentry := modifyEntry_sameLinks s round.entry (f := afterSend s.now) rfl rfl
      exact (hentry.trans (modify_rounds_sameLinks _ r (.finished false))).trans
        (sameLinks_of_eq rfl rfl rfl rfl)
  | some err =>
      obtain ⟨hgeneration, hinflight, -⟩ :=
        catchRound_frame opts round.aborted err (s.entries round.entry)
      have hentry := modifyEntry_sameLinks s round.entry
        (f := fun _ => (catchRound opts round.aborted err (s.entries round.entry)).1)
        hgeneration hinflight
      exact (hentry.trans (modify_rounds_sameLinks _ r _)).trans
        (sameLinks_of_eq rfl rfl rfl rfl)

variable (opts) in
theorem handOver_sameLinks (s : State Registry SyncState) (e : EntryId) (message : Message) :
    SameLinks s (handOver opts s e message).1 := by
  unfold handOver
  dsimp only
  split
  · refine ⟨rfl, rfl, fun e' => ?_, fun e' => ?_, fun _ => rfl⟩
    all_goals
      rw [State.modifyEntry_entries]
      split
      · rw [‹e' = e›]; rfl
      · rfl
  · exact sameLinks_of_eq rfl rfl rfl rfl

theorem pushMessage_sameLinks (s : State Registry SyncState) (e : EntryId) (message : Message) :
    SameLinks s (pushMessage s e message) :=
  let f (entry : PeerSyncEntry SyncState) := { entry with
    inboundBuffer := entry.inboundBuffer ++ [message]
    inboundBufferBytes := entry.inboundBufferBytes + message.length }
  (modifyEntry_sameLinks s e (f := f) rfl rfl).trans (sameLinks_of_eq rfl rfl rfl rfl)

theorem refuseMessage_sameLinks (s : State Registry SyncState) (peerId : String) (e : EntryId) :
    SameLinks s (refuseMessage s peerId e) :=
  (modifyEntry_sameLinks s e rfl rfl).trans
    ((Quiet.abort _ _).sameLinks.trans (sameLinks_of_eq rfl rfl rfl rfl))

/-! ## The invariant -/

structure Linked (s : State Registry SyncState) : Prop where
  allocated : ∀ p e, s.peers.get p = some e → e < s.nextEntry
  injective : ∀ p p' e, s.peers.get p = some e → s.peers.get p' = some e → p = p'
  round_allocated : ∀ r round, s.rounds.get r = some round → round.entry < s.nextEntry
  round_generation : ∀ r round, s.rounds.get r = some round →
    (s.entries round.entry).generation = round.generation
  round_peer : ∀ r round p, s.rounds.get r = some round → s.peers.get p = some round.entry →
    p = round.peerId
  inflight_outstanding : ∀ p e r, s.peers.get p = some e → (s.entries e).inflight = some r →
    ∃ round, s.rounds.get r = some round ∧ round.entry = e

theorem Linked.of_sameLinks {s s' : State Registry SyncState} (h : Linked s)
    (hsame : SameLinks s s') : Linked s' where
  allocated p e hp := by
    rw [hsame.peers] at hp
    rw [hsame.nextEntry]
    exact h.allocated p e hp
  injective p p' e hp hp' := by
    rw [hsame.peers] at hp hp'
    exact h.injective p p' e hp hp'
  round_allocated r round hround := by
    obtain ⟨old, hold, -, hentry, -⟩ := hsame.round hround
    rw [hsame.nextEntry, ← hentry]
    exact h.round_allocated r old hold
  round_generation r round hround := by
    obtain ⟨old, hold, -, hentry, hgeneration⟩ := hsame.round hround
    rw [hsame.generation, ← hentry, ← hgeneration]
    exact h.round_generation r old hold
  round_peer r round p hround hp := by
    obtain ⟨old, hold, hpeer, hentry, -⟩ := hsame.round hround
    rw [hsame.peers, ← hentry] at hp
    rw [← hpeer]
    exact h.round_peer r old p hold hp
  inflight_outstanding p e r hp hr := by
    rw [hsame.peers] at hp
    rw [hsame.inflight] at hr
    obtain ⟨round, hround, hentry⟩ := h.inflight_outstanding p e r hp hr
    obtain ⟨new, hnew, heq⟩ := hsame.round_after hround
    exact ⟨new, hnew, heq.trans hentry⟩

/-- Removing peers from the map breaks no link. -/
theorem Linked.of_fewer_peers {s : State Registry SyncState} (h : Linked s)
    {peers : InsertionMap String EntryId}
    (hpeers : ∀ p e, peers.get p = some e → s.peers.get p = some e) :
    Linked { s with peers := peers } where
  allocated p e hp := h.allocated p e (hpeers p e hp)
  injective p p' e hp hp' := h.injective p p' e (hpeers p e hp) (hpeers p' e hp')
  round_allocated := h.round_allocated
  round_generation := h.round_generation
  round_peer r round p hround hp := h.round_peer r round p hround (hpeers p _ hp)
  inflight_outstanding p e r hp := h.inflight_outstanding p e r (hpeers p e hp)

theorem Linked.add {s : State Registry SyncState} (h : Linked s) (peerId : String)
    (previous : Option (PeerSyncEntry SyncState)) :
    Linked (s.addPeerEntry opts peerId previous) := by
  -- the new entry is at its own id, and the others are where they were
  have hold : ∀ p e, (s.addPeerEntry opts peerId previous).peers.get p = some e →
      (p = peerId ∧ e = s.nextEntry) ∨ (p ≠ peerId ∧ s.peers.get p = some e) := by
    intro p e hp
    simp only [State.addPeerEntry, InsertionMap.get_set] at hp
    split at hp
    · exact .inl ⟨‹_›, (Option.some.inj hp).symm⟩
    · exact .inr ⟨‹_›, hp⟩
  have hentry : ∀ e, e < s.nextEntry →
      (s.addPeerEntry opts peerId previous).entries e = s.entries e := fun e he =>
    Function.update_of_ne (Nat.ne_of_lt he) _ _
  constructor
  · intro p e hp
    show e < s.nextEntry + 1
    rcases hold p e hp with ⟨-, rfl⟩ | ⟨-, hp⟩
    · exact Nat.lt_succ_self _
    · exact Nat.lt_succ_of_lt (h.allocated p e hp)
  · intro p p' e hp hp'
    rcases hold p e hp with ⟨rfl, rfl⟩ | ⟨-, hp⟩
    · rcases hold p' _ hp' with ⟨rfl, -⟩ | ⟨-, hp'⟩
      · rfl
      · exact absurd (h.allocated _ _ hp') (Nat.lt_irrefl _)
    · rcases hold p' e hp' with ⟨-, rfl⟩ | ⟨-, hp'⟩
      · exact absurd (h.allocated _ _ hp) (Nat.lt_irrefl _)
      · exact h.injective p p' e hp hp'
  · intro r round hround
    exact Nat.lt_succ_of_lt (h.round_allocated r round hround)
  · intro r round hround
    rw [hentry _ (h.round_allocated r round hround)]
    exact h.round_generation r round hround
  · intro r round p hround hp
    rcases hold p _ hp with ⟨-, heq⟩ | ⟨-, hp⟩
    · exact absurd heq (Nat.ne_of_lt (h.round_allocated r round hround))
    · exact h.round_peer r round p hround hp
  · intro p e r hp hr
    -- the new entry has no round yet
    rcases hold p e hp with ⟨-, rfl⟩ | ⟨-, hp⟩
    · simp [State.addPeerEntry, createPeerEntry] at hr
    · rw [hentry e (h.allocated p e hp)] at hr
      exact h.inflight_outstanding p e r hp hr

theorem startRound_entries (s : State Registry SyncState) (peerId : String) (e e' : EntryId) :
    (startRound opts s peerId e).entries e' =
      if e' = e then
        { (roundBody opts s.registry s.now (s.entries e)).1 with
          inflight := some s.rounds.next
          abortController := some s.rounds.next }
      else s.entries e' := by
  simp [startRound, Function.update_apply]

theorem startRound_generation (s : State Registry SyncState) (peerId : String) (e e' : EntryId) :
    ((startRound opts s peerId e).entries e').generation = (s.entries e').generation := by
  rw [startRound_entries]
  split
  case isTrue he => rw [he]; exact (roundBody_frame opts _ _ _).1
  case isFalse => rfl

/-- An outstanding round after a start is the started one or was outstanding before. -/
theorem startRound_round {s : State Registry SyncState} {peerId : String} {e : EntryId}
    {r : RoundId} {round : Round}
    (hround : (startRound opts s peerId e).rounds.get r = some round) :
    (r = s.rounds.next ∧ round.peerId = peerId ∧ round.entry = e ∧
        round.generation = (s.entries e).generation) ∨
      s.rounds.get r = some round := by
  rcases Arena.get_alloc_eq_some hround with ⟨hr, rfl⟩ | h
  · exact .inl ⟨hr, rfl, rfl, rfl⟩
  · exact .inr h

theorem Linked.start {s : State Registry SyncState} (h : Linked s) {peerId : String} {e : EntryId}
    (hpeer : s.peers.get peerId = some e) : Linked (startRound opts s peerId e) where
  allocated := h.allocated
  injective := h.injective
  round_allocated r round hround := by
    rcases startRound_round hround with ⟨-, -, hentry, -⟩ | hold
    · rw [hentry]
      exact h.allocated peerId e hpeer
    · exact h.round_allocated r round hold
  round_generation r round hround := by
    rw [startRound_generation]
    rcases startRound_round hround with ⟨-, -, hentry, hgeneration⟩ | hold
    · rw [hentry, hgeneration]
    · exact h.round_generation r round hold
  round_peer r round p hround hp := by
    rcases startRound_round hround with ⟨-, hround, hentry, -⟩ | hold
    · rw [hentry] at hp
      rw [hround]
      exact h.injective p peerId e hp hpeer
    · exact h.round_peer r round p hold hp
  inflight_outstanding p e' r hp hr := by
    rw [startRound_entries] at hr
    split at hr
    case isTrue he =>
      obtain rfl := Option.some.inj hr
      exact ⟨_, Arena.get_alloc_next _ _, he.symm⟩
    case isFalse =>
      obtain ⟨round, hround, hentry⟩ := h.inflight_outstanding p e' r hp hr
      exact ⟨round, Arena.get_alloc_of_get hround, hentry⟩

theorem Linked.finish {s : State Registry SyncState} (h : Linked s) {r : RoundId} {round : Round}
    {rejected : Bool} (hround : s.rounds.get r = some round) :
    Linked (finishRound opts s r round rejected) where
  allocated p e hp := by
    rw [finishRound_peers] at hp
    rw [finishRound_nextEntry]
    exact h.allocated p e hp
  injective p p' e hp hp' := by
    rw [finishRound_peers] at hp hp'
    exact h.injective p p' e hp hp'
  round_allocated r' round' hround' := by
    rw [finishRound_rounds] at hround'
    rw [finishRound_nextEntry]
    exact h.round_allocated r' round' (Arena.get_free_eq_some hround').2
  round_generation r' round' hround' := by
    rw [finishRound_rounds] at hround'
    rw [finishRound_generation]
    exact h.round_generation r' round' (Arena.get_free_eq_some hround').2
  round_peer r' round' p hround' hp := by
    rw [finishRound_rounds] at hround'
    rw [finishRound_peers] at hp
    exact h.round_peer r' round' p (Arena.get_free_eq_some hround').2 hp
  inflight_outstanding p e r' hp hr' := by
    rw [finishRound_peers] at hp
    rw [finishRound_rounds]
    by_cases hmatches : Matches s round e
    · rw [finishRound_inflight opts s r round rejected hmatches] at hr'
      cases hr'
    · rw [(finishRound_of_not_matches opts s r round rejected hmatches).1] at hr'
      obtain ⟨round', hround', hentry⟩ := h.inflight_outstanding p e r' hp hr'
      -- an entry that claims the finishing round is the one this round matches
      have hne : r' ≠ r := by
        rintro rfl
        obtain rfl := Option.some.inj (hround'.symm.trans hround)
        have hpeer := h.round_peer r' round' p hround (hentry ▸ hp)
        exact hmatches ⟨hpeer ▸ hp, hentry ▸ h.round_generation r' round' hround⟩
      exact ⟨round', by rw [Arena.get_free_of_ne hne, hround'], hentry⟩

theorem linked_init (registry : Registry) : Linked (initialState opts registry) where
  allocated := by simp [initialState]
  injective := by simp [initialState]
  round_allocated := by simp [initialState]
  round_generation := by simp [initialState]
  round_peer := by simp [initialState]
  inflight_outstanding := by simp [initialState]

theorem Linked.move {D : Conditions Registry SyncState} {s s' : State Registry SyncState}
    (h : Linked s) (hmove : Move opts D s s') : Linked s' := by
  cases hmove with
  | quiet hquiet => exact h.of_sameLinks hquiet.sameLinks
  | add peerId _ => exact h.add peerId _
  | delete peerId =>
      exact h.of_fewer_peers fun p e hp => (InsertionMap.get_of_get_delete hp).2
  | clear => exact h.of_fewer_peers fun p e hp => by simp at hp
  | start hpeer _ _ => exact h.start hpeer
  | push _ _ _ => exact h.of_sameLinks (pushMessage_sameLinks _ _ _)
  | refuse _ => exact h.of_sameLinks (refuseMessage_sameLinks _ _ _)
  | handOver _ _ _ => exact h.of_sameLinks (handOver_sameLinks opts _ _ _)
  | sendSettles result _ _ _ => exact h.of_sameLinks (sendSettles_sameLinks opts _ _ _ _ _)
  | hungUp _ _ => exact h.of_sameLinks (modify_rounds_sameLinks _ _ _)
  | finish hround _ _ => exact h.finish hround
  | forget o => exact h.of_sameLinks (sameLinks_of_eq rfl rfl rfl rfl)

/-- The links hold in every reachable state. -/
theorem linked_of_reachable {registry : Registry} {s : State Registry SyncState}
    (h : (coordinator opts registry).Reachable s) : Linked s :=
  reachable_of_moves (linked_init registry) (fun _ _ hs hmove => hs.move hmove) h

end ThinkLocal.RegistrySync
