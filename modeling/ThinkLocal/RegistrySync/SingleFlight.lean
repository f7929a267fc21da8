import ThinkLocal.RegistrySync.Links

/-!
# Single flight and the generation guard

A round that finishes clears the entry that is under its peer id by then, if the
generations agree.  The generation of a new entry is one more than that of the
entry it replaces and starts at 1 again when the peer id was free, so the guard
tells two entries apart only as long as no outstanding round of the peer id has
the number that the new entry gets: `FreshGeneration`.  Under this condition
there is at most one round on an entry of the map, and a round cleans up after
itself only (`single_flight`).  A disconnect followed by a connect is enough to
break the condition and with it both properties (`single_flight_reconnect`).
-/

namespace ThinkLocal.RegistrySync

open Foundation Relation

variable {Registry SyncState : Type*}
variable {opts : RegistrySyncCoordinatorOptions Registry SyncState}

/-! ## What is guarded -/

/-- At most one round is outstanding for an entry in the map. -/
def SingleFlight (s : State Registry SyncState) : Prop :=
  ∀ p e r r' round round', s.peers.get p = some e →
    s.rounds.get r = some round → round.entry = e →
    s.rounds.get r' = some round' → round'.entry = e → r = r'

/-- The step changes no entry object but `e` and removes no other from the map. -/
def TouchesOnly (e : EntryId) (s s' : State Registry SyncState) : Prop :=
  (∀ e', e' ≠ e → s'.entries e' = s.entries e') ∧
    ∀ p e', e' ≠ e → s.peers.get p = some e' → s'.peers.get p = some e'

/-- The clean-up of a round, at its end or after its `hangUp`, touches only the
entry on which the round was started. -/
def CleanUpIsOwn (opts : RegistrySyncCoordinatorOptions Registry SyncState)
    (s : State Registry SyncState) : Prop :=
  ∀ r round a s', s.rounds.get r = some round → a = .roundFinishes r ∨ a = .hangUpSettles r →
    step opts s a = some s' → TouchesOnly round.entry s s'

/-- The generation of an entry created for the peer id now. -/
def nextGeneration (s : State Registry SyncState) (p : String) : Nat :=
  ((s.peers.get p).map fun e => (s.entries e).generation).getD 0 + 1

/-- No outstanding round of the peer id has the generation of its next entry. -/
def FreshFor (s : State Registry SyncState) (p : String) : Prop :=
  ∀ r round, s.rounds.get r = some round →
    round.peerId = p → round.generation ≠ nextGeneration s p

instance (s : State Registry SyncState) (p : String) : Decidable (FreshFor s p) :=
  Arena.decidableForall s.rounds fun _ round =>
    round.peerId = p → round.generation ≠ nextGeneration s p

/-- Where the action creates an entry, the generation of the entry is fresh. -/
def FreshGeneration (s : State Registry SyncState) : Action Registry → Prop
  | .connect p => s.stopped = false → FreshFor s p
  | .message p _ => s.stopped = false → s.peers.get p = none → FreshFor s p
  | _ => True

instance (s : State Registry SyncState) : ∀ a : Action Registry, Decidable (FreshGeneration s a)
  | .connect p => inferInstanceAs (Decidable (s.stopped = false → FreshFor s p))
  | .message p _ =>
      inferInstanceAs (Decidable (s.stopped = false → s.peers.get p = none → FreshFor s p))
  | .start | .stop | .disconnect _ | .republish | .timerFires _ | .tickResumes _ | .microtask
  | .roundTimeout _ | .sendSettles _ _ | .hangUpSettles _ | .roundFinishes _ | .overflowSettles _
  | .stopResumes _ | .registryChanges _ | .timePasses _ => inferInstanceAs (Decidable True)

/-! ## The invariant -/

/-- An outstanding round finds its own entry, or none of its generation, and its
own entry claims it. -/
structure Guarded (s : State Registry SyncState) : Prop where
  same_generation : ∀ r round e, s.rounds.get r = some round → Matches s round e → e = round.entry
  inflight : ∀ r round, s.rounds.get r = some round →
    s.peers.get round.peerId = some round.entry → (s.entries round.entry).inflight = some r

theorem Guarded.of_sameLinks {s s' : State Registry SyncState} (h : Guarded s)
    (hsame : SameLinks s s') : Guarded s' where
  same_generation r round e hround hmatches := by
    obtain ⟨old, hold, hpeer, hentry, hgeneration⟩ := hsame.round hround
    rw [← hentry]
    refine h.same_generation r old e hold ⟨?_, ?_⟩
    · rw [hpeer, ← hsame.peers]
      exact hmatches.1
    · rw [hgeneration, ← hsame.generation]
      exact hmatches.2
  inflight r round hround hp := by
    obtain ⟨old, hold, hpeer, hentry, -⟩ := hsame.round hround
    rw [hsame.peers, ← hpeer, ← hentry] at hp
    rw [hsame.inflight, ← hentry]
    exact h.inflight r old hold hp

theorem Guarded.of_fewer_peers {s : State Registry SyncState} (h : Guarded s)
    {peers : InsertionMap String EntryId}
    (hpeers : ∀ p e, peers.get p = some e → s.peers.get p = some e) :
    Guarded { s with peers := peers } where
  same_generation r round e hround hmatches :=
    h.same_generation r round e hround ⟨hpeers _ _ hmatches.1, hmatches.2⟩
  inflight r round hround hp := h.inflight r round hround (hpeers _ _ hp)

/-- The entry under a peer id after a new entry was added. -/
theorem addPeerEntry_get {s : State Registry SyncState} {peerId p : String} {e : EntryId}
    {previous : Option (PeerSyncEntry SyncState)}
    (hp : (s.addPeerEntry opts peerId previous).peers.get p = some e) :
    (p = peerId ∧ e = s.nextEntry) ∨ (p ≠ peerId ∧ s.peers.get p = some e) := by
  simp only [State.addPeerEntry, InsertionMap.get_set] at hp
  split at hp
  · exact .inl ⟨‹_›, (Option.some.inj hp).symm⟩
  · exact .inr ⟨‹_›, hp⟩

theorem Guarded.add {s : State Registry SyncState} (h : Guarded s) (hlinked : Linked s)
    {peerId : String} (hfresh : FreshFor s peerId) :
    Guarded (s.addPeerEntry opts peerId ((s.peers.get peerId).map s.entries)) := by
  have hentry : ∀ e, e < s.nextEntry →
      (s.addPeerEntry opts peerId ((s.peers.get peerId).map s.entries)).entries e =
        s.entries e := fun e he => Function.update_of_ne (Nat.ne_of_lt he) _ _
  constructor
  · intro r round e hround hmatches
    rcases addPeerEntry_get hmatches.1 with ⟨hpeer, rfl⟩ | ⟨-, hp⟩
    · -- the new entry has the next generation, which no round of the peer id has
      have hgeneration : nextGeneration s peerId = round.generation := by
        have hnew := hmatches.2
        simp only [State.addPeerEntry, Function.update_self, createPeerEntry] at hnew
        rw [← hnew, nextGeneration, Option.map_map]
        rfl
      exact absurd hgeneration.symm (hfresh r round hround hpeer)
    · have hgeneration := hmatches.2
      rw [hentry e (hlinked.allocated _ _ hp)] at hgeneration
      exact h.same_generation r round e hround ⟨hp, hgeneration⟩
  · intro r round hround hp
    have hallocated := hlinked.round_allocated r round hround
    rcases addPeerEntry_get hp with ⟨-, he⟩ | ⟨-, hp⟩
    · exact absurd he (Nat.ne_of_lt hallocated)
    · rw [hentry _ hallocated]
      exact h.inflight r round hround hp

theorem Guarded.start {s : State Registry SyncState} (h : Guarded s) {peerId : String}
    {e : EntryId} (hpeer : s.peers.get peerId = some e) (hidle : (s.entries e).inflight = none) :
    Guarded (startRound opts s peerId e) where
  same_generation r round e' hround hmatches := by
    have hp : s.peers.get round.peerId = some e' := hmatches.1
    rcases startRound_round hround with ⟨-, hround, hentry, -⟩ | hold
    · rw [hround, hpeer] at hp
      rw [hentry, ← Option.some.inj hp]
    · have hgeneration := hmatches.2
      rw [startRound_generation] at hgeneration
      exact h.same_generation r round e' hold ⟨hp, hgeneration⟩
  inflight r round hround hp := by
    rw [startRound_entries]
    rcases startRound_round hround with ⟨hr, -, hentry, -⟩ | hold
    · rw [if_pos hentry, hr]
    · have hinflight := h.inflight r round hold hp
      rw [if_neg]
      · exact hinflight
      · intro he
        rw [he, hidle] at hinflight
        cases hinflight

theorem Guarded.finish {s : State Registry SyncState} (h : Guarded s)
    {r : RoundId} {round : Round} {rejected : Bool} (hround : s.rounds.get r = some round) :
    Guarded (finishRound opts s r round rejected) where
  same_generation r' round' e hround' hmatches := by
    rw [finishRound_rounds] at hround'
    refine h.same_generation r' round' e (Arena.get_free_eq_some hround').2 ⟨?_, ?_⟩
    · rw [← finishRound_peers opts s r round rejected]
      exact hmatches.1
    · rw [← finishRound_generation opts s r round rejected]
      exact hmatches.2
  inflight r' round' hround' hp := by
    rw [finishRound_rounds] at hround'
    rw [finishRound_peers] at hp
    obtain ⟨hne, hold⟩ := Arena.get_free_eq_some hround'
    have hinflight := h.inflight r' round' hold hp
    have hnot : ¬ Matches s round round'.entry := by
      intro hmatches
      -- the finishing round would be the one that its own entry claims
      have hentry : round'.entry = round.entry := h.same_generation r round _ hround hmatches
      have hclaim := h.inflight r round hround (hentry ▸ hmatches.1)
      rw [← hentry, hinflight] at hclaim
      exact hne (Option.some.inj hclaim)
    rw [(finishRound_of_not_matches opts s r round rejected hnot).1]
    exact hinflight

/-- The condition on the moves that `FreshGeneration` gives. -/
def freshMoves : Conditions Registry SyncState where
  add := FreshFor

theorem Guarded.move {D : Conditions Registry SyncState} {s s' : State Registry SyncState}
    (h : Guarded s) (hlinked : Linked s) (hD : ∀ s p, D.add s p → FreshFor s p)
    (hmove : Move opts D s s') : Guarded s' := by
  cases hmove with
  | quiet hquiet => exact h.of_sameLinks hquiet.sameLinks
  | add peerId hfresh => exact h.add hlinked (hD _ _ hfresh)
  | delete peerId =>
      exact h.of_fewer_peers fun p e hp => (InsertionMap.get_of_get_delete hp).2
  | clear => exact h.of_fewer_peers fun p e hp => by simp at hp
  | start hpeer hidle _ => exact h.start hpeer hidle
  | push _ _ _ => exact h.of_sameLinks (pushMessage_sameLinks _ _ _)
  | refuse _ => exact h.of_sameLinks (refuseMessage_sameLinks _ _ _)
  | handOver _ _ _ => exact h.of_sameLinks (handOver_sameLinks opts _ _ _)
  | sendSettles result _ _ _ => exact h.of_sameLinks (sendSettles_sameLinks opts _ _ _ _ _)
  | hungUp _ _ => exact h.of_sameLinks (modify_rounds_sameLinks _ _ _)
  | finish hround _ _ => exact h.finish hround
  | forget o => exact h.of_sameLinks (sameLinks_of_eq rfl rfl rfl rfl)

/-- An abort leaves the freshness of a generation as it is. -/
theorem FreshFor.abort {s : State Registry SyncState} {p : String} (h : FreshFor s p)
    (c : Option RoundId) : FreshFor (s.abort c) p := by
  intro r round hround hpeer
  obtain ⟨old, hold, hp, -, hgeneration⟩ := (Quiet.abort s c).sameLinks.round hround
  have hfresh := h r old hold (hp.trans hpeer)
  rw [hgeneration] at hfresh
  simpa [nextGeneration] using hfresh

theorem FreshGeneration.creates {s : State Registry SyncState} {a : Action Registry}
    (h : FreshGeneration s a) {p : String} (hcreates : Creates s a p) : FreshFor s p := by
  cases a with
  | connect peerId =>
      obtain ⟨hstopped, rfl⟩ := hcreates
      exact h hstopped
  | message peerId message =>
      obtain ⟨hstopped, rfl, hpeer⟩ := hcreates
      exact h hstopped hpeer
  | _ => exact hcreates.elim

theorem guarded_of_reachable {registry : Registry} {s : State Registry SyncState}
    (h : (coordinator opts registry).ReachableUnder FreshGeneration s) : Guarded s := by
  refine Machine.ReachableUnder.invariant_with (fun _ hs => linked_of_reachable hs) ?_ ?_ h
  · constructor
    · intro r round e hround
      simp [coordinator, initialState] at hround
    · intro r round hround
      simp [coordinator, initialState] at hround
  · intro s a s' hlinked hguarded hfresh hstep
    have hmoves : ReflTransGen (Move opts freshMoves) s s' :=
      step_moves (fun p hcreates c => (hfresh.creates hcreates).abort c) (fun _ _ _ => trivial)
        (fun _ _ => trivial) hstep
    have hboth : Linked s' ∧ Guarded s' :=
      moves_invariant (I := fun s => Linked s ∧ Guarded s)
        (fun _ _ hI hmove => ⟨hI.1.move hmove, hI.2.move hI.1 (fun _ _ hfresh => hfresh) hmove⟩)
        hmoves ⟨hlinked, hguarded⟩
    exact hboth.2

/-! ## Single flight -/

theorem Guarded.singleFlight {s : State Registry SyncState} (h : Guarded s) (hlinked : Linked s) :
    SingleFlight s := by
  intro p e r r' round round' hp hround hentry hround' hentry'
  subst hentry
  have hpeer : p = round.peerId := hlinked.round_peer r round p hround hp
  have hpeer' : p = round'.peerId := hlinked.round_peer r' round' p hround' (hentry' ▸ hp)
  have hclaim := h.inflight r round hround (hpeer ▸ hp)
  have hclaim' := h.inflight r' round' hround' (by rw [← hpeer', hentry', hp])
  rw [hentry', hclaim] at hclaim'
  exact Option.some.inj hclaim'

theorem Guarded.cleanUpIsOwn {s : State Registry SyncState} (h : Guarded s) :
    CleanUpIsOwn opts s := by
  intro r round a s' hround ha hstep
  rcases ha with rfl | rfl
  · obtain ⟨round', rejected, hround', -, rfl⟩ := step_roundFinishes hstep
    obtain rfl := Option.some.inj (hround.symm.trans hround')
    refine ⟨fun e' he => ?_, fun p e' _ hp => by rwa [finishRound_peers]⟩
    refine (finishRound_of_not_matches opts s r round _ fun hmatches => he ?_).1
    exact h.same_generation r round e' hround hmatches
  · obtain ⟨round', hround', -, rfl⟩ := step_hangUpSettles hstep
    obtain rfl := Option.some.inj (hround.symm.trans hround')
    unfold hangUpSettles
    dsimp only
    split
    · exact ⟨fun _ _ => rfl, fun _ _ _ hp => hp⟩
    · split
      · -- the generation is the one of the round, so the entry is its own
        rename_i current hcurrent hgeneration
        have hown : current = round.entry :=
          h.same_generation r round current hround ⟨hcurrent, hgeneration⟩
        refine ⟨fun _ _ => rfl, fun p e' he hp => ?_⟩
        have hne : p ≠ round.peerId := by
          rintro rfl
          exact he ((Option.some.inj (hp.symm.trans hcurrent)).trans hown)
        rwa [State.deletePeer, InsertionMap.get_delete_of_ne _ hne]
      · exact ⟨fun _ _ => rfl, fun _ _ _ hp => hp⟩

/-- In every run in which new entries get fresh generations, at most one round is
outstanding for an entry of the map, and every round cleans up its own entry only. -/
theorem single_flight {registry : Registry} {s : State Registry SyncState}
    (h : (coordinator opts registry).ReachableUnder FreshGeneration s) :
    SingleFlight s ∧ CleanUpIsOwn opts s :=
  have hguarded := guarded_of_reachable h
  ⟨hguarded.singleFlight (linked_of_reachable h.reachable), hguarded.cleanUpIsOwn⟩

/-- A peer that connects, disconnects and connects again, while the round of the
first connection is still sending. -/
def reconnect : List (Action Nat) :=
  [.connect "peer", .disconnect "peer", .connect "peer",
    .sendSettles 0 (some (.error "AbortError" "aborted"))]

/-- The first round clears the entry of the second connection, and the next
message starts a second round on it. -/
theorem single_flight_reconnect :
    (∃ s, (coordinator counterOptions 0).Reachable s ∧ ¬ CleanUpIsOwn counterOptions s) ∧
      ∃ s, (coordinator counterOptions 0).Reachable s ∧ ¬ SingleFlight s := by
  constructor
  · -- the second connection comes while the first round is outstanding
    have hrun : ((coordinator counterOptions 0).runFrom (initialState counterOptions 0)
        reconnect).map (fun s => (s.rounds.get 0, (s.entries 1).inflight,
          (step counterOptions s (.roundFinishes 0)).map fun s' => (s'.entries 1).inflight)) =
        some (some ⟨"peer", 0, 1, true, .finished false⟩, some 1, some none) := by decide
    obtain ⟨s, hs, hlook⟩ := Option.map_eq_some_iff.mp hrun
    simp only [Prod.mk.injEq, Option.map_eq_some_iff] at hlook
    obtain ⟨hround, hbefore, s', hstep, hafter⟩ := hlook
    refine ⟨s, Machine.reachable_of_runFrom hs, fun hown => ?_⟩
    have htouch := (hown 0 _ _ s' hround (.inl rfl) hstep).1 1 (by decide)
    rw [htouch, hbefore] at hafter
    cases hafter
  · have hrun : ((coordinator counterOptions 0).runFrom (initialState counterOptions 0)
        (reconnect ++ [.roundFinishes 0, .message "peer" [7]])).map
          (fun s => (s.peers.get "peer", s.rounds.get 1, s.rounds.get 2)) =
        some (some 1, some ⟨"peer", 1, 1, false, .sending [1]⟩,
          some ⟨"peer", 1, 1, false, .sending [1]⟩) := by decide
    obtain ⟨s, hs, hlook⟩ := Option.map_eq_some_iff.mp hrun
    simp only [Prod.mk.injEq] at hlook
    obtain ⟨hpeer, hfirst, hsecond⟩ := hlook
    refine ⟨s, Machine.reachable_of_runFrom hs, fun hsingle => ?_⟩
    have heq := hsingle "peer" 1 1 2 _ _ hpeer hfirst rfl hsecond rfl
    cases heq

/-- A reconnect over an existing entry meets the condition. -/
theorem single_flight_over_existing :
    ∃ s, (coordinator counterOptions 0).Reachable s ∧ s.rounds.next = 2 ∧
      SingleFlight s ∧ CleanUpIsOwn counterOptions s := by
  have hrun : ((coordinator counterOptions 0).runFrom (initialState counterOptions 0)
      [.connect "peer", .connect "peer"]).map (fun s => s.rounds.next) = some 2 := by decide
  obtain ⟨s, hs, hnext⟩ := Option.map_eq_some_iff.mp hrun
  have hreach : (coordinator counterOptions 0).ReachableUnder FreshGeneration s :=
    Machine.ReachableUnder.init.runFrom (by decide) hs
  exact ⟨s, hreach.reachable, hnext, single_flight hreach⟩

end ThinkLocal.RegistrySync
