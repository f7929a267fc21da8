import ThinkLocal.RegistrySync.SingleFlight

/-!
# After a buffer overflow

When a message does not fit, `onMessageFromPeer` hangs up and deletes whatever
is under the peer id once `hangUp` settled.  It does not compare generations as
the clean-up of a round does.  Entries have increasing numbers, so an entry that
was created meanwhile has at least the number that was next at the overflow;
under the peer id any other entry is the one that overflowed (`Overflowed`).
Hence the deletion hits that entry or nothing exactly if no entry created since
the overflow is under the peer id when `hangUp` settles
(`overflowSettles_touchesOnly_iff`).
-/

namespace ThinkLocal.RegistrySync

open Foundation Relation

variable {Registry SyncState : Type*}
variable {opts : RegistrySyncCoordinatorOptions Registry SyncState}

/-! ## The invariant -/

/-- The only entry older than the overflow that its peer id can hold is the one
that overflowed. -/
structure Overflowed (s : State Registry SyncState) : Prop where
  before : ∀ o overflow, s.overflows.get o = some overflow →
    overflow.entry < overflow.created ∧ overflow.created ≤ s.nextEntry
  same : ∀ o overflow e, s.overflows.get o = some overflow →
    s.peers.get overflow.peerId = some e → e < overflow.created → e = overflow.entry

theorem Overflowed.of_eq {s s' : State Registry SyncState} (h : Overflowed s)
    (hpeers : s'.peers = s.peers) (hnext : s'.nextEntry = s.nextEntry)
    (hoverflows : s'.overflows = s.overflows) : Overflowed s' where
  before o overflow ho := by
    rw [hoverflows] at ho
    rw [hnext]
    exact h.before o overflow ho
  same o overflow e ho hpeer hlt := by
    rw [hoverflows] at ho
    rw [hpeers] at hpeer
    exact h.same o overflow e ho hpeer hlt

theorem Overflowed.of_fewer_peers {s : State Registry SyncState} (h : Overflowed s)
    {peers : InsertionMap String EntryId}
    (hpeers : ∀ p e, peers.get p = some e → s.peers.get p = some e) :
    Overflowed { s with peers := peers } where
  before := h.before
  same o overflow e ho hpeer hlt := h.same o overflow e ho (hpeers _ _ hpeer) hlt

theorem Overflowed.add {s : State Registry SyncState} (h : Overflowed s) (peerId : String)
    (previous : Option (PeerSyncEntry SyncState)) :
    Overflowed (s.addPeerEntry opts peerId previous) where
  before o overflow ho := by
    obtain ⟨hentry, hcreated⟩ := h.before o overflow ho
    exact ⟨hentry, Nat.le_succ_of_le hcreated⟩
  same o overflow e ho hpeer hlt := by
    rcases addPeerEntry_get hpeer with ⟨-, rfl⟩ | ⟨-, hold⟩
    · -- the new entry is not older than the overflow
      have hcreated := (h.before o overflow ho).2
      exact absurd hlt (Nat.not_lt.mpr hcreated)
    · exact h.same o overflow e ho hold hlt

theorem refuseMessage_frame (s : State Registry SyncState) (peerId : String) (e : EntryId) :
    (refuseMessage s peerId e).peers = s.peers ∧
      (refuseMessage s peerId e).nextEntry = s.nextEntry ∧
      (refuseMessage s peerId e).overflows = s.overflows.alloc ⟨peerId, e, s.nextEntry⟩ := by
  have hsame := refuseMessage_sameLinks s peerId e
  refine ⟨hsame.peers, hsame.nextEntry, ?_⟩
  simp [refuseMessage, State.modifyEntry]

theorem Overflowed.refuse {s : State Registry SyncState} (h : Overflowed s) (hlinked : Linked s)
    {peerId : String} {e : EntryId} (hpeer : s.peers.get peerId = some e) :
    Overflowed (refuseMessage s peerId e) := by
  obtain ⟨hpeers, hnext, hoverflows⟩ := refuseMessage_frame s peerId e
  constructor
  · intro o overflow ho
    rw [hoverflows] at ho
    rw [hnext]
    rcases Arena.get_alloc_eq_some ho with ⟨-, rfl⟩ | hold
    · exact ⟨hlinked.allocated peerId e hpeer, Nat.le_refl _⟩
    · exact h.before o overflow hold
  · intro o overflow e' ho hpeer' hlt
    rw [hoverflows] at ho
    rw [hpeers] at hpeer'
    rcases Arena.get_alloc_eq_some ho with ⟨-, rfl⟩ | hold
    · exact Option.some.inj (hpeer'.symm.trans hpeer)
    · exact h.same o overflow e' hold hpeer' hlt

theorem Overflowed.move {D : Conditions Registry SyncState} {s s' : State Registry SyncState}
    (h : Overflowed s) (hlinked : Linked s) (hmove : Move opts D s s') : Overflowed s' := by
  cases hmove with
  | quiet hquiet => exact h.of_eq hquiet.peers hquiet.nextEntry hquiet.overflows
  | add peerId _ => exact h.add peerId _
  | delete peerId =>
      exact h.of_fewer_peers fun p e hp => (InsertionMap.get_of_get_delete hp).2
  | clear => exact h.of_fewer_peers fun p e hp => by simp at hp
  | start _ _ _ => exact h.of_eq rfl rfl rfl
  | push _ _ _ => exact h.of_eq rfl rfl rfl
  | refuse hpeer => exact h.refuse hlinked hpeer
  | @handOver peerId e message _ _ _ =>
      have hsame := handOver_sameLinks opts s e message
      refine h.of_eq hsame.peers hsame.nextEntry ?_
      unfold handOver
      dsimp only
      split <;> rfl
  | @sendSettles r round message result _ _ _ =>
      have hsame := sendSettles_sameLinks opts s r round message result
      refine h.of_eq hsame.peers hsame.nextEntry ?_
      cases result <;> rfl
  | hungUp _ _ => exact h.of_eq rfl rfl rfl
  | @finish r round rejected _ _ _ =>
      exact h.of_eq (finishRound_peers opts s r round rejected)
        (finishRound_nextEntry opts s r round rejected)
        (finishRound_overflows opts s r round rejected)
  | forget o =>
      -- what was settled is forgotten, the others stay pending
      refine ⟨fun o' overflow ho => ?_, fun o' overflow e ho hpeer hlt => ?_⟩
      · exact h.before o' overflow (Arena.get_free_eq_some ho).2
      · exact h.same o' overflow e (Arena.get_free_eq_some ho).2 hpeer hlt

theorem overflowed_of_reachable {registry : Registry} {s : State Registry SyncState}
    (h : (coordinator opts registry).Reachable s) : Overflowed s := by
  have hboth : Linked s ∧ Overflowed s := by
    refine reachable_of_moves (I := fun s => Linked s ∧ Overflowed s) ⟨linked_init registry, ?_⟩
      (fun _ _ hs hmove => ⟨hs.1.move hmove, hs.2.move hs.1 hmove⟩) h
    constructor
    · intro o overflow ho
      simp [initialState] at ho
    · intro o overflow e ho
      simp [initialState] at ho
  exact hboth.2

/-! ## The deletion -/

/-- The deletion after an overflow removes no entry but the one that overflowed
exactly if no entry created since is under the peer id. -/
theorem overflowSettles_touchesOnly_iff {s s' : State Registry SyncState} {o : Nat}
    {overflow : Overflow} (h : Overflowed s) (ho : s.overflows.get o = some overflow)
    (hstep : step opts s (.overflowSettles o) = some s') :
    TouchesOnly overflow.entry s s' ↔
      ∀ e, s.peers.get overflow.peerId = some e → e < overflow.created := by
  obtain ⟨overflow', ho', rfl⟩ := step_overflowSettles hstep
  obtain rfl := Option.some.inj (ho.symm.trans ho')
  constructor
  · intro htouch e hpeer
    by_contra hnew
    have hne : e ≠ overflow.entry := by
      rintro rfl
      exact hnew (h.before o overflow ho).1
    have hkept := htouch.2 overflow.peerId e hne hpeer
    simp [State.deletePeer] at hkept
  · intro hold
    refine ⟨fun _ _ => rfl, fun p e hne hpeer => ?_⟩
    have hp : p ≠ overflow.peerId := by
      rintro rfl
      exact hne (h.same o overflow e ho hpeer (hold e hpeer))
    show (s.peers.delete overflow.peerId).get p = some e
    rw [InsertionMap.get_delete_of_ne _ hp, hpeer]

/-- After an overflow the step removes the entry that overflowed, if it is still under
the peer id, and no other: all others stay in the map, with the rounds that run on them. -/
def OverflowRemovesOwn (s : State Registry SyncState) (a : Action Registry)
    (s' : State Registry SyncState) : Prop :=
  ∀ o overflow, a = .overflowSettles o → s.overflows.get o = some overflow →
    s'.peers.get overflow.peerId ≠ some overflow.entry ∧ TouchesOnly overflow.entry s s'

/-- The deletion after an overflow leaves nothing under the peer id. -/
theorem overflowSettles_get {s s' : State Registry SyncState} {o : Nat} {overflow : Overflow}
    (ho : s.overflows.get o = some overflow)
    (hstep : step opts s (.overflowSettles o) = some s') :
    s'.peers.get overflow.peerId = none := by
  obtain ⟨overflow', ho', rfl⟩ := step_overflowSettles hstep
  obtain rfl := Option.some.inj (ho.symm.trans ho')
  simp [State.deletePeer]

/-- When the `hangUp` of an overflow settles, no entry created since the overflow
is under the peer id. -/
def NotReplaced (s : State Registry SyncState) : Action Registry → Prop
  | .overflowSettles o => ∀ overflow ∈ s.overflows.get o,
      ∀ e ∈ s.peers.get overflow.peerId, e < overflow.created
  | _ => True

instance (s : State Registry SyncState) : ∀ a : Action Registry, Decidable (NotReplaced s a)
  | .overflowSettles o => inferInstanceAs (Decidable (∀ overflow ∈ s.overflows.get o,
      ∀ e ∈ s.peers.get overflow.peerId, e < overflow.created))
  | .start | .stop | .connect _ | .disconnect _ | .message _ _ | .republish | .timerFires _
  | .tickResumes _ | .microtask | .roundTimeout _ | .sendSettles _ _ | .hangUpSettles _
  | .roundFinishes _ | .stopResumes _ | .registryChanges _ | .timePasses _ =>
      inferInstanceAs (Decidable True)

/-- In every run in which no overflowed entry is replaced before its `hangUp`
settles, every step removes after an overflow the entry that overflowed and no other. -/
theorem overflow_removes_own {registry : Registry} {s s' : State Registry SyncState}
    {a : Action Registry} (h : (coordinator opts registry).ReachableUnder NotReplaced s)
    (hcondition : NotReplaced s a) (hstep : step opts s a = some s') :
    OverflowRemovesOwn s a s' := by
  intro o overflow ha ho
  subst ha
  have hinv := overflowed_of_reachable h.reachable
  have hgone := overflowSettles_get ho hstep
  refine ⟨by simp [hgone], ?_⟩
  exact (overflowSettles_touchesOnly_iff hinv ho hstep).mpr fun e hpeer =>
    hcondition overflow ho e hpeer

/-- A peer whose messages overflow the buffer of its first entry. -/
def flood : List (Action Nat) :=
  .connect "peer" :: List.replicate 17 (.message "peer" [7])

/-- The peer reconnects while the `hangUp` is pending, and the new entry is
deleted with its round in flight. -/
theorem overflow_removes_new_entry :
    ∃ s s', (coordinator counterOptions 0).Reachable s ∧
      step counterOptions s (.overflowSettles 0) = some s' ∧
      s'.rounds.get 1 = some ⟨"peer", 1, 2, false, .sending [1]⟩ ∧
      s'.peers.get "peer" = none ∧
      ¬ OverflowRemovesOwn s (.overflowSettles 0) s' := by
  have hrun : ((coordinator counterOptions 0).runFrom (initialState counterOptions 0)
      (flood ++ [.connect "peer"])).map (fun s => (s.overflows.get 0, s.peers.get "peer",
        (step counterOptions s (.overflowSettles 0)).map fun s' =>
          (s'.rounds.get 1, s'.peers.get "peer"))) =
      some (some ⟨"peer", 0, 1⟩, some 1,
        some (some ⟨"peer", 1, 2, false, .sending [1]⟩, none)) := by decide +kernel
  obtain ⟨s, hs, hlook⟩ := Option.map_eq_some_iff.mp hrun
  simp only [Prod.mk.injEq, Option.map_eq_some_iff] at hlook
  obtain ⟨hoverflow, hbefore, s', hstep, hround, hafter⟩ := hlook
  refine ⟨s, s', Machine.reachable_of_runFrom hs, hstep, hround, hafter, fun h => ?_⟩
  have hkept := (h 0 _ rfl hoverflow).2.2 "peer" 1 (by decide) hbefore
  rw [hafter] at hkept
  cases hkept

/-- Without a reconnect the entry that overflowed is deleted. -/
theorem overflow_removes_flooded_entry :
    ∃ s s', (coordinator counterOptions 0).Reachable s ∧
      step counterOptions s (.overflowSettles 0) = some s' ∧ s'.peers.get "peer" = none ∧
      OverflowRemovesOwn s (.overflowSettles 0) s' := by
  have hrun : ((coordinator counterOptions 0).runFrom (initialState counterOptions 0)
      flood).map (fun s => (decide (NotReplaced s (.overflowSettles 0)),
        (step counterOptions s (.overflowSettles 0)).map fun s' => s'.peers.get "peer")) =
      some (true, some none) := by decide +kernel
  obtain ⟨s, hs, hlook⟩ := Option.map_eq_some_iff.mp hrun
  simp only [Prod.mk.injEq, decide_eq_true_eq, Option.map_eq_some_iff] at hlook
  obtain ⟨hcondition, s', hstep, hafter⟩ := hlook
  have hreach : (coordinator counterOptions 0).ReachableUnder NotReplaced s :=
    Machine.ReachableUnder.init.runFrom (by decide +kernel) hs
  exact ⟨s, s', hreach.reachable, hstep, hafter, overflow_removes_own hreach hcondition hstep⟩

end ThinkLocal.RegistrySync
