import ThinkLocal.Skills.Discovery

/-!
# Decisions of the operator

A revocation is meant to be permanent and a suspension to hold until the operator
activates the capability again.  Retention deletes the row that carries the
revocation, and an announcement activates suspended capabilities like new ones.
Both decisions hold in the runs in which no peer gets to use this.
-/

namespace ThinkLocal.Skills

open Foundation Machine CapabilityActivationStore

variable {s : ActivationState} {key : CapabilityKey}

/-! ## Revocations -/

/-- The step brings back a revoked pair whose row was deleted. -/
def Rediscovers (s : ActivationState) : ActivationAction → Prop
  | .discover key _ _ _ => key ∈ s.revoked ∧ s.store.stateOf key = none
  | .announcement env peerAgentId skills =>
      ∃ capId ∈ announcedCapabilities env skills,
        (capId, peerAgentId) ∈ s.revoked ∧ s.store.stateOf (capId, peerAgentId) = none
  | _ => False

instance (s : ActivationState) : (a : ActivationAction) → Decidable (Rediscovers s a)
  | .discover _ _ _ _ => inferInstanceAs (Decidable (_ ∧ _))
  | .announcement _ _ _ => inferInstanceAs (Decidable (∃ _ ∈ _, _))
  | .activate _ _ | .suspend _ _ _ | .revoke _ _ _ | .pruneRevokedOlderThan _ _ => .isFalse id

/-- A revoked pair has a revoked row or none. -/
def RevocationsHold (s : ActivationState) : Prop :=
  ∀ key ∈ s.revoked, s.store.stateOf key = none ∨ s.store.stateOf key = some .revoked

theorem revocationsHold_step (h : RevocationsHold s) {a : ActivationAction}
    (ha : ¬ Rediscovers s a) : RevocationsHold (activationStep s a) := by
  intro key hkey
  rcases mem_revoked_step hkey with hold | hnew
  · have hchange := change_step s a key
    have hbefore := h key hold
    generalize hs : s.store.stateOf key = state at hchange hbefore
    generalize (activationStep s a).store.stateOf key = state' at hchange ⊢
    cases hchange with
    | same => exact hbefore
    | discovered => exact absurd ⟨hold, hs⟩ ha
    | activated now state hne => simp [hne] at hbefore
    | suspended => simp at hbefore
    | revoked => exact .inr rfl
    | pruned => exact .inl rfl
    | announced env peerAgentId skills state hpeer hlisted hne =>
        -- Its row was deleted, so the announcement brings it back.
        subst hpeer
        exact absurd ⟨key.1, hlisted, hold, hs.trans (hbefore.resolve_right hne)⟩ ha
  · exact .inr hnew

/-- In the runs in which no revoked pair is brought back after its row was deleted, revoked
pairs are never active again. -/
theorem revoked_stays_inactive
    (h : activation.ReachableUnder (fun s a => ¬ Rediscovers s a) s) :
    ∀ key ∈ s.revoked, s.store.isActive key = false := by
  have hhold : RevocationsHold s := by
    refine h.invariant ?_ ?_
    · intro key hkey
      cases hkey
    · intro s a s' hs ha hstep
      obtain rfl := Option.some.inj hstep
      exact revocationsHold_step hs ha
  intro key hkey
  rw [Bool.eq_false_iff, Ne, isActive_iff]
  rcases hhold key hkey with hstate | hstate <;> simp [hstate]

/-! A peer that announces one capability. -/

def peerUri : String := "spiffe://thinklocal/node/QmPeer"

def influxKey : CapabilityKey := ("influxdb.read", peerUri)

def announceInflux (now : Int) : ActivationAction :=
  .announcement ⟨fun _ => false, fun _ _ => "hash", fun _ => now⟩ peerUri
    [{ name := "influxdb", version := "1.0.0", description := "", origin := peerUri
       capabilities := ["influxdb.read"], prompt := none }]

/-- The revocation holds against a second announcement. -/
theorem revoked_stays_inactive_influx :
    ∃ s : ActivationState, influxKey ∈ s.revoked ∧ s.store.isActive influxKey = false := by
  let actions := [announceInflux 0, .revoke influxKey (some "compromised") 1, announceInflux 2]
  have hrun : ((activation.runFrom activation.init actions).any fun s =>
      decide (influxKey ∈ s.revoked)) = true := by decide
  obtain ⟨s, hs, hrevoked⟩ := (Option.any_eq_true _ _).mp hrun
  have hmeets : activation.Meets (fun s a => ¬ Rediscovers s a) activation.init actions := by
    decide
  have hrevoked := of_decide_eq_true hrevoked
  exact ⟨s, hrevoked, revoked_stays_inactive (.runFrom .init hmeets hs) influxKey hrevoked⟩

/-- After ninety days the revocation is deleted, and the peer is active again. -/
theorem revoked_becomes_active :
    ¬ ∀ s, activation.Reachable s → ∀ key ∈ s.revoked, s.store.isActive key = false := by
  intro h
  let actions := [announceInflux 0, .revoke influxKey (some "compromised") 1,
    .pruneRevokedOlderThan (some (90 * 86400000)) (90 * 86400000 + 2), announceInflux 2]
  have hrun : ((activation.runFrom activation.init actions).any fun s =>
      decide (influxKey ∈ s.revoked ∧ s.store.isActive influxKey = true)) = true := by decide
  obtain ⟨s, hs, hactive⟩ := (Option.any_eq_true _ _).mp hrun
  obtain ⟨hrevoked, hactive⟩ := of_decide_eq_true hactive
  have hinactive := h s (reachable_of_runFrom hs) influxKey hrevoked
  rw [hactive] at hinactive
  cases hinactive

/-! ## Suspensions -/

/-- The step announces a suspended pair that is not revoked. -/
def Reactivates (s : ActivationState) : ActivationAction → Prop
  | .announcement env peerAgentId skills =>
      ∃ capId ∈ announcedCapabilities env skills,
        (capId, peerAgentId) ∈ s.held ∧ s.store.stateOf (capId, peerAgentId) ≠ some .revoked
  | _ => False

instance (s : ActivationState) : (a : ActivationAction) → Decidable (Reactivates s a)
  | .announcement _ _ _ => inferInstanceAs (Decidable (∃ _ ∈ _, _))
  | .discover _ _ _ _ | .activate _ _ | .suspend _ _ _ | .revoke _ _ _
  | .pruneRevokedOlderThan _ _ => .isFalse id

def SuspensionsHold (s : ActivationState) : Prop :=
  ∀ key ∈ s.held, s.store.stateOf key ≠ some .active

theorem suspensionsHold_step (h : SuspensionsHold s) {a : ActivationAction}
    (ha : ¬ Reactivates s a) : SuspensionsHold (activationStep s a) := by
  intro key hkey
  rcases mem_held_step hkey with ⟨hold, hnot⟩ | hnew
  · have hchange := change_step s a key
    have hbefore := h key hold
    generalize hs : s.store.stateOf key = state at hchange hbefore
    generalize (activationStep s a).store.stateOf key = state' at hchange ⊢
    cases hchange with
    | same => exact hbefore
    | activated now state hne => exact absurd rfl (hnot now)
    | announced env peerAgentId skills state hpeer hlisted hne =>
        subst hpeer
        exact absurd ⟨key.1, hlisted, hold, hs ▸ hne⟩ ha
    | discovered | suspended | revoked | pruned => simp
  · rw [hnew]
    simp

/-- In the runs in which no suspended pair is announced by its origin, suspended pairs are not
active until the operator activates them. -/
theorem suspended_stays_inactive
    (h : activation.ReachableUnder (fun s a => ¬ Reactivates s a) s) :
    ∀ key ∈ s.held, s.store.isActive key = false := by
  have hhold : SuspensionsHold s := by
    refine h.invariant ?_ ?_
    · intro key hkey
      cases hkey
    · intro s a s' hs ha hstep
      obtain rfl := Option.some.inj hstep
      exact suspensionsHold_step hs ha
  intro key hkey
  rw [Bool.eq_false_iff, Ne, isActive_iff]
  exact hhold key hkey

/-- The suspension holds against another peer's announcement. -/
theorem suspended_stays_inactive_influx :
    ∃ s : ActivationState, influxKey ∈ s.held ∧ s.store.isActive influxKey = false := by
  let actions := [announceInflux 0, .suspend influxKey (some "maintenance") 1,
    .announcement ⟨fun _ => false, fun _ _ => "hash", fun _ => 2⟩ "spiffe://thinklocal/node/QmB"
      [{ name := "influxdb", version := "1.0.0", description := "", origin := peerUri
         capabilities := ["influxdb.read"], prompt := none }]]
  have hrun : ((activation.runFrom activation.init actions).any fun s =>
      decide (influxKey ∈ s.held)) = true := by decide
  obtain ⟨s, hs, hheld⟩ := (Option.any_eq_true _ _).mp hrun
  have hmeets : activation.Meets (fun s a => ¬ Reactivates s a) activation.init actions := by
    decide
  have hheld := of_decide_eq_true hheld
  exact ⟨s, hheld, suspended_stays_inactive (.runFrom .init hmeets hs) influxKey hheld⟩

/-- The next announcement of the peer activates the suspended capability. -/
theorem suspended_becomes_active :
    ¬ ∀ s, activation.Reachable s → ∀ key ∈ s.held, s.store.isActive key = false := by
  intro h
  let actions := [announceInflux 0, .suspend influxKey (some "maintenance") 1, announceInflux 2]
  have hrun : ((activation.runFrom activation.init actions).any fun s =>
      decide (influxKey ∈ s.held ∧ s.store.isActive influxKey = true)) = true := by decide
  obtain ⟨s, hs, hactive⟩ := (Option.any_eq_true _ _).mp hrun
  obtain ⟨hheld, hactive⟩ := of_decide_eq_true hactive
  have hinactive := h s (reachable_of_runFrom hs) influxKey hheld
  rw [hactive] at hinactive
  cases hinactive

end ThinkLocal.Skills
