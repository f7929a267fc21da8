import ThinkLocal.RegistrySync.SingleFlight

/-!
# What `converged` says

A round stores the next sync state before it sends, and does not take it back
when the send fails.  The next round finds nothing to send in that state and
reports convergence.

A message produced for an entry was delivered, its send failed, or its send is
pending (`Accounted`).  If no send fails for an entry that stays in the map, and
new entries get fresh generations, then a round starts only on an entry without
failed or pending sends, and `converged` means that everything produced was
delivered (`converged_delivered`).  One failed send followed by a `republish`
reports convergence of undelivered data (`converged_undelivered`).
-/

namespace ThinkLocal.RegistrySync

open Foundation Relation

variable {Registry SyncState : Type*}
variable {opts : RegistrySyncCoordinatorOptions Registry SyncState}

/-! ## Status reporting -/

/-- `getSloViolations`; `connected` are the connected peers, if the caller restricts to them. -/
def getSloViolations (s : State Registry SyncState) (now divergenceLimitMs : Nat)
    (connected : Option (List String)) : List (String × Option Nat × Nat) :=
  s.peers.entries.filterMap fun (peerId, e) =>
    let entry := s.entries e
    if connected.any fun peerIds => peerId ∉ peerIds then none
    else if entry.converged then none
    else
      match entry.lastRoundAt with
      | none => some (peerId, none, entry.rounds)
      | some at_ =>
          if divergenceLimitMs < now - at_ then some (peerId, some at_, entry.rounds) else none

/-! ## Accounts -/

/-- The message is passed to a `send` that has not settled, by a round on the entry. -/
def Pending (s : State Registry SyncState) (e : EntryId) (x : RoundId × Message) : Prop :=
  ∃ round, s.rounds.get x.1 = some round ∧ round.entry = e ∧ round.phase = .sending x.2

/-- Every message produced for an entry was delivered, failed or is pending. -/
def Accounted (s : State Registry SyncState) : Prop :=
  ∀ e, ∀ x ∈ (s.history e).produced,
    x ∈ (s.history e).delivered ∨ x ∈ (s.history e).failed ∨ Pending s e x

/-- Every message produced for a converged entry was delivered. -/
def ConvergedDelivered (s : State Registry SyncState) : Prop :=
  ∀ e, (s.entries e).converged = true →
    ∀ x ∈ (s.history e).produced, x ∈ (s.history e).delivered

/-- No send failed for an entry in the map. -/
def NothingFailed (s : State Registry SyncState) : Prop :=
  s.stopped = false → ∀ p e, s.peers.get p = some e → (s.history e).failed = []

/-- The entry of the round is no longer under its peer id. -/
def HasLeft (s : State Registry SyncState) (round : Round) : Prop :=
  s.peers.get round.peerId ≠ some round.entry

/-- While the coordinator runs, a send fails only for an entry that has left the map. -/
def FailsOnlyLeft (s : State Registry SyncState) : Action Registry → Prop
  | .sendSettles r (some _) => s.stopped = false → ∀ round ∈ s.rounds.get r, HasLeft s round
  | _ => True

instance (s : State Registry SyncState) : ∀ a : Action Registry, Decidable (FailsOnlyLeft s a)
  | .sendSettles r (some _) => inferInstanceAs (Decidable (s.stopped = false →
      ∀ round ∈ s.rounds.get r, s.peers.get round.peerId ≠ some round.entry))
  | .start | .stop | .connect _ | .disconnect _ | .message _ _ | .republish | .timerFires _
  | .tickResumes _ | .microtask | .roundTimeout _ | .sendSettles _ none | .hangUpSettles _
  | .roundFinishes _ | .overflowSettles _ | .stopResumes _ | .registryChanges _ | .timePasses _ =>
      inferInstanceAs (Decidable True)

/-- New entries get fresh generations, and no send fails for an entry that stays. -/
def Undisturbed (s : State Registry SyncState) (a : Action Registry) : Prop :=
  FreshGeneration s a ∧ FailsOnlyLeft s a

instance (s : State Registry SyncState) (a : Action Registry) : Decidable (Undisturbed s a) :=
  inferInstanceAs (Decidable (_ ∧ _))

/-! ## Steps that send nothing -/

/-- What was produced, delivered and failed is the same, and pending sends stay pending. -/
structure SameOutbound (s s' : State Registry SyncState) : Prop where
  converged : ∀ e, (s'.entries e).converged = (s.entries e).converged
  produced : ∀ e, (s'.history e).produced = (s.history e).produced
  delivered : ∀ e, (s'.history e).delivered = (s.history e).delivered
  failed : ∀ e, (s'.history e).failed = (s.history e).failed
  pending : ∀ e x, Pending s e x → Pending s' e x

theorem Accounted.of_sameOutbound {s s' : State Registry SyncState} (h : Accounted s)
    (hsame : SameOutbound s s') : Accounted s' := by
  intro e x hx
  rw [hsame.produced] at hx
  rw [hsame.delivered, hsame.failed]
  rcases h e x hx with hdelivered | hfailed | hpending
  · exact .inl hdelivered
  · exact .inr (.inl hfailed)
  · exact .inr (.inr (hsame.pending e x hpending))

theorem ConvergedDelivered.of_sameOutbound {s s' : State Registry SyncState}
    (h : ConvergedDelivered s) (hsame : SameOutbound s s') : ConvergedDelivered s' := by
  intro e hconverged x hx
  rw [hsame.converged] at hconverged
  rw [hsame.produced] at hx
  rw [hsame.delivered]
  exact h e hconverged x hx

theorem sameOutbound_of_eq {s s' : State Registry SyncState} (hentries : s'.entries = s.entries)
    (hhistory : s'.history = s.history) (hrounds : s'.rounds = s.rounds) : SameOutbound s s' where
  converged e := by rw [hentries]
  produced e := by rw [hhistory]
  delivered e := by rw [hhistory]
  failed e := by rw [hhistory]
  pending e x hpending := by
    unfold Pending
    rw [hrounds]
    exact hpending

theorem Quiet.sameOutbound {s s' : State Registry SyncState} (h : Quiet s s') :
    SameOutbound s s' where
  converged e := by rw [h.entries]
  produced e := by rw [h.history]
  delivered e := by rw [h.history]
  failed e := by rw [h.history]
  pending e x hpending := by
    obtain ⟨round, hround, hentry, hphase⟩ := hpending
    obtain ⟨new, hnew, hbody⟩ := h.round_after hround
    have hnewEntry : new.body.entry = round.body.entry := by rw [hbody]
    have hnewPhase : new.body.phase = round.body.phase := by rw [hbody]
    exact ⟨new, hnew, hnewEntry.trans hentry, hnewPhase.trans hphase⟩

theorem SameOutbound.trans {s₁ s₂ s₃ : State Registry SyncState} (h : SameOutbound s₁ s₂)
    (h' : SameOutbound s₂ s₃) : SameOutbound s₁ s₃ where
  converged e := (h'.converged e).trans (h.converged e)
  produced e := (h'.produced e).trans (h.produced e)
  delivered e := (h'.delivered e).trans (h.delivered e)
  failed e := (h'.failed e).trans (h.failed e)
  pending e x hpending := h'.pending e x (h.pending e x hpending)

/-- Changing one entry and its history on the inbound side only. -/
theorem update_sameOutbound {s s' : State Registry SyncState} {e : EntryId}
    {entry : PeerSyncEntry SyncState} {history : History}
    (hentries : s'.entries = Function.update s.entries e entry)
    (hhistory : s'.history = Function.update s.history e history)
    (hconverged : entry.converged = (s.entries e).converged)
    (hproduced : history.produced = (s.history e).produced)
    (hdelivered : history.delivered = (s.history e).delivered)
    (hfailed : history.failed = (s.history e).failed)
    (hpending : ∀ e x, Pending s e x → Pending s' e x) : SameOutbound s s' where
  converged := field_of_update _ hentries hconverged
  produced := field_of_update _ hhistory hproduced
  delivered := field_of_update _ hhistory hdelivered
  failed := field_of_update _ hhistory hfailed
  pending := hpending

theorem pushMessage_sameOutbound (s : State Registry SyncState) (e : EntryId)
    (message : Message) : SameOutbound s (pushMessage s e message) :=
  update_sameOutbound rfl rfl rfl rfl rfl rfl fun _ _ h => h

theorem refuseMessage_sameOutbound (s : State Registry SyncState) (peerId : String)
    (e : EntryId) : SameOutbound s (refuseMessage s peerId e) := by
  let modified := s.modifyEntry e fun entry =>
    { entry with lastError := some "inbound sync buffer overflow" }
  have hmodified : SameOutbound s modified := by
    refine update_sameOutbound rfl (Function.update_eq_self e s.history).symm ?_ rfl rfl rfl ?_
    · rfl
    · exact fun _ _ h => h
  have habort := (Quiet.abort modified (modified.entries e).abortController).sameOutbound
  have hthen : SameOutbound (modified.abort (modified.entries e).abortController)
      (refuseMessage s peerId e) := sameOutbound_of_eq rfl rfl rfl
  exact (hmodified.trans habort).trans hthen

theorem handOver_sameOutbound (s : State Registry SyncState) (e : EntryId) (message : Message) :
    SameOutbound s (handOver opts s e message).1 := by
  unfold handOver
  dsimp only
  split
  · exact update_sameOutbound rfl rfl rfl rfl rfl rfl fun _ _ h => h
  · exact update_sameOutbound (Function.update_eq_self e s.entries).symm rfl rfl rfl rfl rfl
      fun _ _ h => h

/-- A pending send stays pending while another round ends or leaves its phase. -/
theorem Pending.of_rounds {s s' : State Registry SyncState} {e : EntryId}
    {x : RoundId × Message} {r : RoundId} (h : Pending s e x) (hne : x.1 ≠ r)
    (hrounds : ∀ r', r' ≠ r → s'.rounds.get r' = s.rounds.get r') : Pending s' e x := by
  obtain ⟨round, hround, hentry, hphase⟩ := h
  exact ⟨round, by rw [hrounds _ hne, hround], hentry, hphase⟩

theorem hungUp_sameOutbound {s : State Registry SyncState} {r : RoundId} {round : Round}
    (hround : s.rounds.get r = some round) (hphase : round.phase = .hangingUp) :
    SameOutbound s { s with
      rounds := s.rounds.modify r fun round => { round with phase := .finished false } } := by
  refine ⟨fun _ => rfl, fun _ => rfl, fun _ => rfl, fun _ => rfl, fun e x hpending => ?_⟩
  refine hpending.of_rounds (r := r) ?_ fun r' hr' => if_neg hr'
  rintro rfl
  obtain ⟨round', hround', -, hsending⟩ := hpending
  obtain rfl := Option.some.inj (hround'.symm.trans hround)
  rw [hphase] at hsending
  cases hsending

variable (opts) in
theorem drainEntry_outbound (s : State Registry SyncState) (peerId : String) (e e' : EntryId) :
    let s' := (drainEntry opts s peerId e).1
    (s'.entries e').converged = (s.entries e').converged ∧
      (s'.history e').produced = (s.history e').produced ∧
      (s'.history e').delivered = (s.history e').delivered ∧
      (s'.history e').failed = (s.history e').failed := by
  intro s'
  by_cases he : e' = e
  · subst he
    by_cases hdrains : (s.entries e').inboundBuffer ≠ [] ∧ s.stopped = false
    · obtain ⟨-, hentry, hhistory⟩ := drainEntry_waiting opts s peerId hdrains.1 hdrains.2
      exact ⟨by rw [hentry], by rw [hhistory], by rw [hhistory], by rw [hhistory]⟩
    · simp only [s', drainEntry_nothing opts s peerId hdrains]
      exact ⟨by rw [State.modifyEntry_entries_self], rfl, rfl, rfl⟩
  · obtain ⟨hentry, hhistory⟩ := (drainEntry_frame opts s peerId e).2.2.2.2.2.2.2 e' he
    exact ⟨by rw [hentry], by rw [hhistory], by rw [hhistory], by rw [hhistory]⟩

theorem finishRound_sameOutbound {s : State Registry SyncState} {r : RoundId} {round : Round}
    {rejected : Bool} (hround : s.rounds.get r = some round)
    (hphase : round.phase = .finished rejected) :
    SameOutbound s (finishRound opts s r round rejected) := by
  have hpending : ∀ e x, Pending s e x → Pending (finishRound opts s r round rejected) e x := by
    intro e x hpending
    refine hpending.of_rounds (r := r) ?_ fun r' hr' => ?_
    · rintro rfl
      obtain ⟨round', hround', -, hsending⟩ := hpending
      obtain rfl := Option.some.inj (hround'.symm.trans hround)
      rw [hphase] at hsending
      cases hsending
    · rw [finishRound_rounds, Arena.get_free_of_ne hr']
  rcases finishRound_cases opts s r round rejected with ⟨-, h⟩ | ⟨e, -, h⟩
  · rw [h] at hpending ⊢
    exact ⟨fun _ => rfl, fun _ => rfl, fun _ => rfl, fun _ => rfl, hpending⟩
  · rw [h] at hpending ⊢
    have hdrain := drainEntry_outbound opts { s with rounds := s.rounds.free r }
      round.peerId e
    exact ⟨fun e' => (hdrain e').1, fun e' => (hdrain e').2.1, fun e' => (hdrain e').2.2.1,
      fun e' => (hdrain e').2.2.2, hpending⟩

/-! ## Starting a round and settling its send -/

theorem startRound_history (s : State Registry SyncState) (peerId : String) (e e' : EntryId) :
    (startRound opts s peerId e).history e' =
      if e' = e then
        (s.history e).produce s.rounds.next (roundBody opts s.registry s.now (s.entries e)).2
      else s.history e' := by
  simp [startRound, Function.update_apply]

theorem produce_settled (h : History) (r : RoundId) (phase : Phase) :
    (h.produce r phase).delivered = h.delivered ∧ (h.produce r phase).failed = h.failed := by
  cases phase <;> exact ⟨rfl, rfl⟩

/-- A send that is pending stays pending when another round starts. -/
theorem Pending.start {s : State Registry SyncState} {e : EntryId} {x : RoundId × Message}
    (h : Pending s e x) (peerId : String) (started : EntryId) :
    Pending (startRound opts s peerId started) e x := by
  obtain ⟨round, hround, hentry, hphase⟩ := h
  exact ⟨round, Arena.get_alloc_of_get hround, hentry, hphase⟩

theorem Accounted.start {s : State Registry SyncState} (h : Accounted s) (peerId : String)
    (e : EntryId) : Accounted (startRound opts s peerId e) := by
  intro e' x hx
  rw [startRound_history] at hx ⊢
  split at hx
  case isFalse he =>
    rw [if_neg he]
    exact (h e' x hx).imp_right (Or.imp_right fun hpending => hpending.start peerId e)
  case isTrue he =>
    obtain ⟨hdelivered, hfailed⟩ := produce_settled (s.history e) s.rounds.next
      (roundBody opts s.registry s.now (s.entries e)).2
    rw [if_pos he, hdelivered, hfailed]
    have hold : x ∈ (s.history e).produced → x ∈ (s.history e).delivered ∨
        x ∈ (s.history e).failed ∨ Pending (startRound opts s peerId e) e' x := by
      intro hmem
      subst he
      exact (h e' x hmem).imp_right (Or.imp_right fun hpending => hpending.start peerId e')
    cases hphase : (roundBody opts s.registry s.now (s.entries e)).2 with
    | sending message =>
        rw [hphase] at hx
        rcases List.mem_append.mp hx with hmem | hnew
        · exact hold hmem
        · -- the message just produced is what the new round sends
          obtain rfl := List.mem_singleton.mp hnew
          exact .inr (.inr ⟨_, Arena.get_alloc_next _ _, he.symm, hphase⟩)
    | hangingUp =>
        rw [hphase] at hx
        exact hold hx
    | finished rejected =>
        rw [hphase] at hx
        exact hold hx

theorem catchRound_not_sending (aborted : Bool) (err : Thrown) (entry : PeerSyncEntry SyncState)
    (message : Message) : (catchRound opts aborted err entry).2 ≠ .sending message := by
  unfold catchRound
  split
  · simp
  · dsimp only
    split
    · split <;> simp
    · simp

variable (opts) in
/-- A round body that produces a message clears `converged`. -/
theorem roundBody_sending {s : State Registry SyncState} {e : EntryId} {message : Message}
    (h : (roundBody opts s.registry s.now (s.entries e)).2 = .sending message) :
    (roundBody opts s.registry s.now (s.entries e)).1.converged = false := by
  unfold roundBody at h ⊢
  split at h
  · cases h
  · rfl
  · exact absurd h (catchRound_not_sending _ _ _ _)

/-- A round that starts where no send failed or is pending. -/
theorem ConvergedDelivered.start {s : State Registry SyncState} (h : ConvergedDelivered s)
    (haccounted : Accounted s) {peerId : String} {e : EntryId}
    (hfailed : (s.history e).failed = [])
    (halone : ∀ r round, s.rounds.get r = some round → round.entry ≠ e) :
    ConvergedDelivered (startRound opts s peerId e) := by
  -- no send failed and none is pending, so all that was produced is delivered
  have hall : ∀ x ∈ (s.history e).produced, x ∈ (s.history e).delivered := by
    intro x hx
    rcases haccounted e x hx with hdelivered | hfail | ⟨round, hround, hentry, -⟩
    · exact hdelivered
    · rw [hfailed] at hfail
      cases hfail
    · exact absurd hentry (halone _ _ hround)
  intro e' hconverged x hx
  rw [startRound_entries] at hconverged
  rw [startRound_history] at hx ⊢
  split at hx
  case isFalse he =>
    rw [if_neg he] at hconverged ⊢
    exact h e' hconverged x hx
  case isTrue he =>
    rw [if_pos he] at hconverged ⊢
    rw [(produce_settled _ _ _).1]
    cases hphase : (roundBody opts s.registry s.now (s.entries e)).2 with
    | sending message =>
        -- a round that has something to send takes the mark back
        have hclear := roundBody_sending opts hphase
        dsimp only at hconverged
        rw [hclear] at hconverged
        cases hconverged
    | hangingUp =>
        rw [hphase] at hx
        exact hall x hx
    | finished rejected =>
        rw [hphase] at hx
        exact hall x hx

section

variable (opts)
variable (s : State Registry SyncState) (r : RoundId) (round : Round) (message : Message)
variable (result : Option Thrown) (e : EntryId)

theorem sendSettles_converged :
    ((sendSettles opts s r round message result).entries e).converged =
      (s.entries e).converged := by
  have hentries : ∃ entry, (sendSettles opts s r round message result).entries =
      Function.update s.entries round.entry entry ∧
        entry.converged = (s.entries round.entry).converged := by
    cases result with
    | none => exact ⟨_, rfl, rfl⟩
    | some err =>
        exact ⟨_, rfl, (catchRound_frame opts round.aborted err (s.entries round.entry)).2.2.2.2⟩
  obtain ⟨entry, hentries, hconverged⟩ := hentries
  exact field_of_update _ hentries hconverged e

theorem sendSettles_history :
    (sendSettles opts s r round message result).history e =
      if e = round.entry then
        match result with
        | none =>
            { s.history e with delivered := (s.history e).delivered ++ [(r, message)] }
        | some _ => { s.history e with failed := (s.history e).failed ++ [(r, message)] }
      else s.history e := by
  cases result with
  | none | some _ =>
      refine (Function.update_apply ..).trans ?_
      split
      · rw [‹e = round.entry›]; rfl
      · rfl

/-- The history only grows when a send settles, by the message sent. -/
theorem sendSettles_outbound :
    let h' := (sendSettles opts s r round message result).history e
    h'.produced = (s.history e).produced ∧
      (∀ x ∈ (s.history e).delivered, x ∈ h'.delivered) ∧
      (∀ x ∈ (s.history e).failed, x ∈ h'.failed) ∧
      (e = round.entry → (r, message) ∈ h'.delivered ∨ (r, message) ∈ h'.failed) := by
  intro h'
  have hh' : h' = (sendSettles opts s r round message result).history e := rfl
  rw [sendSettles_history] at hh'
  split at hh'
  case isFalse he =>
    rw [hh']
    exact ⟨rfl, fun _ hx => hx, fun _ hx => hx, fun heq => absurd heq he⟩
  case isTrue =>
    cases result with
    | none =>
        rw [hh']
        exact ⟨rfl, fun _ hx => List.mem_append_left _ hx, fun _ hx => hx,
          fun _ => .inl (List.mem_append_right _ (List.mem_singleton_self _))⟩
    | some err =>
        rw [hh']
        exact ⟨rfl, fun _ hx => hx, fun _ hx => List.mem_append_left _ hx,
          fun _ => .inr (List.mem_append_right _ (List.mem_singleton_self _))⟩

end

theorem Accounted.sendSettles {s : State Registry SyncState} (h : Accounted s) {r : RoundId}
    {round : Round} {message : Message} (result : Option Thrown)
    (hround : s.rounds.get r = some round) (hphase : round.phase = .sending message) :
    Accounted (sendSettles opts s r round message result) := by
  intro e x hx
  obtain ⟨hproduced, hdelivered, hfailed, hsettled⟩ :=
    sendSettles_outbound opts s r round message result e
  rw [hproduced] at hx
  rcases h e x hx with hmem | hmem | hpending
  · exact .inl (hdelivered x hmem)
  · exact .inr (.inl (hfailed x hmem))
  · by_cases hr : x.1 = r
    · -- the send of `x` is the one that settles
      obtain ⟨round', hround', hentry, hsending⟩ := hpending
      rw [hr] at hround'
      obtain rfl := Option.some.inj (hround'.symm.trans hround)
      have hmessage : x.2 = message := Phase.sending.inj (hsending.symm.trans hphase)
      have hx' : x = (r, message) := Prod.ext hr hmessage
      rw [hx']
      exact (hsettled hentry.symm).imp_right .inl
    · refine .inr (.inr (hpending.of_rounds hr fun r' hr' => ?_))
      cases result <;> exact if_neg hr'

theorem ConvergedDelivered.sendSettles {s : State Registry SyncState} (h : ConvergedDelivered s)
    (r : RoundId) (round : Round) (message : Message) (result : Option Thrown) :
    ConvergedDelivered (sendSettles opts s r round message result) := by
  intro e hconverged x hx
  obtain ⟨hproduced, hdelivered, -⟩ :=
    sendSettles_outbound opts s r round message result e
  rw [sendSettles_converged] at hconverged
  rw [hproduced] at hx
  exact hdelivered x (h e hconverged x hx)

/-! ## Runs -/

variable (opts) in
/-- A new entry has produced nothing. -/
theorem addPeerEntry_outbound (s : State Registry SyncState) (peerId : String)
    (previous : Option (PeerSyncEntry SyncState)) (e : EntryId) :
    let s' := s.addPeerEntry opts peerId previous
    (s'.entries e = s.entries e ∧ s'.history e = s.history e) ∨ s'.history e = {} := by
  intro s'
  by_cases he : e = s.nextEntry
  · subst he
    exact .inr (Function.update_self ..)
  · exact .inl ⟨Function.update_of_ne he .., Function.update_of_ne he ..⟩

theorem Accounted.add {s : State Registry SyncState} (h : Accounted s) (peerId : String)
    (previous : Option (PeerSyncEntry SyncState)) :
    Accounted (s.addPeerEntry opts peerId previous) := by
  intro e x hx
  rcases addPeerEntry_outbound opts s peerId previous e with ⟨-, hhistory⟩ | hhistory
  · rw [hhistory] at hx ⊢
    exact h e x hx
  · rw [hhistory] at hx
    cases hx

theorem ConvergedDelivered.add {s : State Registry SyncState} (h : ConvergedDelivered s)
    (peerId : String) (previous : Option (PeerSyncEntry SyncState)) :
    ConvergedDelivered (s.addPeerEntry opts peerId previous) := by
  intro e hconverged x hx
  rcases addPeerEntry_outbound opts s peerId previous e with ⟨hentry, hhistory⟩ | hhistory
  · rw [hhistory] at hx ⊢
    rw [hentry] at hconverged
    exact h e hconverged x hx
  · rw [hhistory] at hx
    cases hx

theorem Move.sameOutbound {D : Conditions Registry SyncState} {s s' : State Registry SyncState}
    (hmove : Move opts D s s') :
    SameOutbound s s' ∨ (∃ p previous, s' = s.addPeerEntry opts p previous) ∨
      (∃ p e, s.peers.get p = some e ∧ (s.entries e).inflight = none ∧ s.stopped = false ∧
        s' = startRound opts s p e) ∨
      ∃ r round message result, s.rounds.get r = some round ∧ round.phase = .sending message ∧
        s' = RegistrySync.sendSettles opts s r round message result := by
  cases hmove with
  | quiet hquiet => exact .inl hquiet.sameOutbound
  | add peerId _ => exact .inr (.inl ⟨_, _, rfl⟩)
  | delete peerId => exact .inl (sameOutbound_of_eq rfl rfl rfl)
  | clear => exact .inl (sameOutbound_of_eq rfl rfl rfl)
  | start hpeer hidle hstopped => exact .inr (.inr (.inl ⟨_, _, hpeer, hidle, hstopped, rfl⟩))
  | push _ _ _ => exact .inl (pushMessage_sameOutbound _ _ _)
  | refuse _ => exact .inl (refuseMessage_sameOutbound _ _ _)
  | handOver _ _ _ => exact .inl (handOver_sameOutbound _ _ _)
  | sendSettles result hround hphase _ =>
      exact .inr (.inr (.inr ⟨_, _, _, result, hround, hphase, rfl⟩))
  | hungUp hround hphase => exact .inl (hungUp_sameOutbound hround hphase)
  | finish hround hphase _ => exact .inl (finishRound_sameOutbound hround hphase)
  | forget o => exact .inl (sameOutbound_of_eq rfl rfl rfl)

theorem Accounted.move {D : Conditions Registry SyncState} {s s' : State Registry SyncState}
    (h : Accounted s) (hmove : Move opts D s s') : Accounted s' := by
  rcases hmove.sameOutbound with hsame | ⟨p, previous, rfl⟩ | ⟨p, e, -, -, -, rfl⟩ |
    ⟨r, round, message, result, hround, hphase, rfl⟩
  · exact h.of_sameOutbound hsame
  · exact h.add p previous
  · exact h.start p e
  · exact h.sendSettles result hround hphase

/-! ## Sends that fail -/

/-- The conditions on the moves that `Undisturbed` gives. -/
def undisturbedMoves : Conditions Registry SyncState where
  add := FreshFor
  settle s r result := FailsOnlyLeft s (.sendSettles r result)

theorem NothingFailed.of_fewer {s s' : State Registry SyncState} (h : NothingFailed s)
    (hstopped : s'.stopped = false → s.stopped = false)
    (hpeers : ∀ p e, s'.peers.get p = some e → s.peers.get p = some e)
    (hfailed : ∀ e, (s'.history e).failed = (s.history e).failed) : NothingFailed s' := by
  intro hs p e hp
  rw [hfailed]
  exact h (hstopped hs) p e (hpeers p e hp)

theorem NothingFailed.add {s : State Registry SyncState} (h : NothingFailed s) (peerId : String)
    (previous : Option (PeerSyncEntry SyncState)) :
    NothingFailed (s.addPeerEntry opts peerId previous) := by
  intro hstopped p e hp
  rcases addPeerEntry_outbound opts s peerId previous e with ⟨-, hhistory⟩ | hhistory
  · rw [hhistory]
    rcases addPeerEntry_get hp with ⟨-, rfl⟩ | ⟨-, hold⟩
    · -- the new entry starts with an empty history
      have hnew : (s.addPeerEntry opts peerId previous).history s.nextEntry = {} :=
        Function.update_self ..
      rw [← hhistory, hnew]
    · exact h hstopped p e hold
  · rw [hhistory]

theorem NothingFailed.sendSettles {s : State Registry SyncState} (h : NothingFailed s)
    (hlinked : Linked s) {r : RoundId} {round : Round} {message : Message}
    {result : Option Thrown} (hround : s.rounds.get r = some round)
    (hleft : FailsOnlyLeft s (.sendSettles r result)) :
    NothingFailed (RegistrySync.sendSettles opts s r round message result) := by
  have hsame := sendSettles_sameLinks opts s r round message result
  have hstops : (RegistrySync.sendSettles opts s r round message result).stopped = s.stopped := by
    cases result <;> rfl
  intro hstopped p e hp
  rw [hstops] at hstopped
  rw [hsame.peers] at hp
  rw [sendSettles_history]
  split
  case isFalse => exact h hstopped p e hp
  case isTrue he =>
    cases result with
    | none => exact h hstopped p e hp
    | some err =>
        -- the round of a failing send is not the one of an entry in the map
        subst he
        have hpeer := hlinked.round_peer r round p hround hp
        exact absurd (hpeer ▸ hp) (hleft hstopped round hround)

theorem NothingFailed.move {s s' : State Registry SyncState} (h : NothingFailed s)
    (hlinked : Linked s) (hmove : Move opts undisturbedMoves s s') : NothingFailed s' := by
  cases hmove with
  | quiet hquiet =>
      exact h.of_fewer hquiet.stopped (fun p e hp => by rwa [← hquiet.peers])
        fun e => by rw [hquiet.history]
  | add peerId _ => exact h.add peerId _
  | delete peerId =>
      exact h.of_fewer id (fun p e hp => (InsertionMap.get_of_get_delete hp).2) fun _ => rfl
  | clear => exact h.of_fewer id (fun p e hp => by simp at hp) fun _ => rfl
  | @start peerId e _ _ _ =>
      refine h.of_fewer id (fun _ _ hp => hp) fun e' => ?_
      -- a new round adds to what was produced and to nothing else
      rw [startRound_history]
      split
      · rw [‹e' = e›]
        exact (produce_settled _ _ _).2
      · rfl
  | push _ _ _ =>
      exact h.of_fewer id (fun _ _ hp => hp) (pushMessage_sameOutbound _ _ _).failed
  | refuse _ =>
      have hsame := refuseMessage_sameLinks s ‹String› ‹EntryId›
      exact h.of_fewer (by simp [refuseMessage, State.modifyEntry])
        (fun p e hp => by rwa [← hsame.peers]) (refuseMessage_sameOutbound _ _ _).failed
  | @handOver _ e message _ _ hstopped =>
      have hsame := handOver_sameLinks opts s e message
      exact h.of_fewer (fun _ => hstopped) (fun p e hp => by rwa [← hsame.peers])
        (handOver_sameOutbound s e message).failed
  | sendSettles result hround _ hleft => exact h.sendSettles hlinked hround hleft
  | hungUp _ _ => exact h.of_fewer id (fun _ _ hp => hp) fun _ => rfl
  | @finish r round rejected hround hphase _ =>
      refine h.of_fewer (fun hs => by rwa [← finishRound_stopped opts s r round rejected])
        (fun p e hp => ?_) (finishRound_sameOutbound hround hphase).failed
      rwa [← finishRound_peers opts s r round rejected]
  | forget o => exact h.of_fewer id (fun _ _ hp => hp) fun _ => rfl

/-- An idle entry of the map has no outstanding round. -/
theorem Guarded.alone {s : State Registry SyncState} (h : Guarded s) (hlinked : Linked s)
    {p : String} {e : EntryId} (hpeer : s.peers.get p = some e)
    (hidle : (s.entries e).inflight = none) (r : RoundId) (round : Round)
    (hround : s.rounds.get r = some round) : round.entry ≠ e := by
  rintro rfl
  have hp := hlinked.round_peer r round p hround hpeer
  have hinflight := h.inflight r round hround (hp ▸ hpeer)
  rw [hidle] at hinflight
  cases hinflight

/-- What every move of an undisturbed run preserves. -/
structure Delivering (s : State Registry SyncState) : Prop where
  linked : Linked s
  guarded : Guarded s
  accounted : Accounted s
  nothingFailed : NothingFailed s
  converged : ConvergedDelivered s

theorem Delivering.move {s s' : State Registry SyncState} (h : Delivering s)
    (hmove : Move opts undisturbedMoves s s') : Delivering s' where
  linked := h.linked.move hmove
  guarded := h.guarded.move h.linked (fun _ _ hfresh => hfresh) hmove
  accounted := h.accounted.move hmove
  nothingFailed := h.nothingFailed.move h.linked hmove
  converged := by
    rcases hmove.sameOutbound with hsame | ⟨p, previous, rfl⟩ |
      ⟨p, e, hpeer, hidle, hstopped, rfl⟩ | ⟨r, round, message, result, -, -, rfl⟩
    · exact h.converged.of_sameOutbound hsame
    · exact h.converged.add p previous
    · exact h.converged.start h.accounted (h.nothingFailed hstopped p e hpeer)
        (h.guarded.alone h.linked hpeer hidle)
    · exact h.converged.sendSettles r round message result

theorem delivering_init (registry : Registry) : Delivering (initialState opts registry) where
  linked := linked_init registry
  guarded := ⟨fun _ _ _ h => by simp [initialState] at h, fun _ _ h => by simp [initialState] at h⟩
  accounted := fun _ _ hx => nomatch hx
  nothingFailed := fun _ _ _ _ => rfl
  converged := fun _ _ _ hx => nomatch hx

/-- In every run in which new entries get fresh generations and a send fails only for
an entry that has left the map, everything produced for a converged entry was delivered. -/
theorem converged_delivered {registry : Registry} {s : State Registry SyncState}
    (h : (coordinator opts registry).ReachableUnder Undisturbed s) : ConvergedDelivered s := by
  have hdelivering : Delivering s := by
    refine h.invariant (delivering_init registry) fun s a s' hs hundisturbed hstep => ?_
    obtain ⟨hfresh, hleft⟩ := hundisturbed
    have hmoves : ReflTransGen (Move opts undisturbedMoves) s s' :=
      step_moves (fun p hcreates c => (hfresh.creates hcreates).abort c)
        (fun r result ha => by subst ha; exact hleft) (fun _ _ => trivial) hstep
    exact moves_invariant (fun _ _ hI hmove => hI.move hmove) hmoves hs
  exact hdelivering.converged

/-- A first round that sends, with the given result, and a second one. -/
def twoRounds (result : Option Thrown) : List (Action Nat) :=
  [.connect "peer", .sendSettles 0 result, .roundFinishes 0, .republish]

/-- The send timed out, the next round reports convergence, and so does the SLO status. -/
theorem converged_undelivered :
    ∃ s, (coordinator counterOptions 0).Reachable s ∧
      (s.history 0).produced = [(0, [1])] ∧ (s.history 0).delivered = [] ∧
      getSloViolations s 1000000 60000 none = [] ∧ ¬ ConvergedDelivered s := by
  have hrun : ((coordinator counterOptions 0).runFrom (initialState counterOptions 0)
      (twoRounds (some (.error "TimeoutError" "round timeout")))).map
        (fun s => (s.history 0, (s.entries 0).converged,
          decide (getSloViolations s 1000000 60000 none = []))) =
      some ({ produced := [(0, [1])], failed := [(0, [1])] }, true, true) := by decide
  obtain ⟨s, hs, hlook⟩ := Option.map_eq_some_iff.mp hrun
  simp only [Prod.mk.injEq, decide_eq_true_eq] at hlook
  obtain ⟨hhistory, hconverged, hslo⟩ := hlook
  refine ⟨s, Machine.reachable_of_runFrom hs, by rw [hhistory], by rw [hhistory], hslo,
    fun h => ?_⟩
  have hmem := h 0 hconverged (0, [1]) (by rw [hhistory]; exact List.mem_singleton_self _)
  rw [hhistory] at hmem
  cases hmem

/-- The send resolved, and the next round converges. -/
theorem converged_after_delivery :
    ∃ s, (coordinator counterOptions 0).Reachable s ∧ (s.entries 0).converged = true ∧
      (s.history 0).produced = [(0, [1])] ∧ ConvergedDelivered s := by
  have hrun : ((coordinator counterOptions 0).runFrom (initialState counterOptions 0)
      (twoRounds none)).map (fun s => ((s.entries 0).converged, (s.history 0).produced)) =
      some (true, [(0, [1])]) := by decide
  obtain ⟨s, hs, hlook⟩ := Option.map_eq_some_iff.mp hrun
  simp only [Prod.mk.injEq] at hlook
  obtain ⟨hconverged, hproduced⟩ := hlook
  have hreach : (coordinator counterOptions 0).ReachableUnder Undisturbed s :=
    Machine.ReachableUnder.init.runFrom (by decide) hs
  exact ⟨s, hreach.reachable, hconverged, hproduced, converged_delivered hreach⟩

end ThinkLocal.RegistrySync
