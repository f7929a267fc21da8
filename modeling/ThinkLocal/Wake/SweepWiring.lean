import ThinkLocal.Inbox.AgentRegistry
import ThinkLocal.Wake.WakeContract

/-!
# The reconciliation sweep

`sweep-wiring.ts` on the registry of the agents.  An instance that registers with unread mail is
woken; but the registry fires no event for an instance that it still knows, and the sweep remembers a
wake-up before it is emitted.
-/

namespace ThinkLocal.Wake

open Foundation Inbox

/-! ## Sweeping -/

/-- A wake-up that the sweep has emitted. -/
structure SweepWake where
  instance_id : String
  spiffe_uri : String
  time : Int
deriving DecidableEq

/-- What the sweep keeps. -/
structure Sweep where
  coalescer : WakeCoalescer
  wakes : List SweepWake

/-- What the dependencies do in a call. -/
structure SweepDeps where
  /-- The unread messages of the instance. -/
  unread : Nat
  /-- Does `unreadFor` throw? -/
  counterThrows : Bool
  /-- Does `emit` throw? -/
  emitThrows : Bool
  now : Int

/-- `computeSweepTargets` of one entry: is it a target? -/
def isSweepTarget (deps : SweepDeps) (entry : AgentRegistryEntry) : Bool :=
  entry.instanceId ≠ "" ∧ entry.spiffeUri ≠ "" ∧ deps.counterThrows = false ∧ 0 < deps.unread

/-- `emitFor` a target; a bus that throws is caught. -/
def emitFor (deps : SweepDeps) (sweep : Sweep) (target : AgentRegistryEntry) : Sweep :=
  let (wake, coalescer) := shouldWake sweep.coalescer target.instanceId deps.now
  if ! wake then { sweep with coalescer := coalescer }
  else if deps.emitThrows then { sweep with coalescer := coalescer }
  else
    { coalescer := coalescer
      wakes := ⟨target.instanceId, target.spiffeUri, deps.now⟩ :: sweep.wakes }

def sweepInstance (registry : AgentRegistry) (deps : SweepDeps) (sweep : Sweep)
    (instanceId : String) : Sweep :=
  match registry.list.find? fun e => e.instanceId = instanceId with
  | none => sweep
  | some entry => if isSweepTarget deps entry then emitFor deps sweep entry else sweep

/-! ## Listeners -/

/-- What a listener can reach: the registry, and what the sweep keeps. -/
abbrev Reached := AgentRegistry × Sweep

/-- A listener of the registry; an error carries what it has left. -/
abbrev Listener := Reached → Except Reached Reached

/-- A listener of somebody else. -/
def foreignListener (throws : Bool) : Listener :=
  fun reached => if throws then .error reached else .ok reached

/-- The listener of the sweep. -/
def sweepListener (deps : SweepDeps) (instanceId : String) : Listener :=
  fun (registry, sweep) => .ok (registry, sweepInstance registry deps sweep instanceId)

/-- `emit` of the registry: what a listener throws is caught. -/
def notify (listeners : List Listener) (reached : Reached) : Except Reached Reached :=
  listeners.foldlM
    (fun reached listener =>
      match listener reached with
      | .ok reached => .ok reached
      | .error reached => .ok reached)
    reached

/-! ## Runs -/

/-- A call of `register`, and which of the other listeners throw, before and after the sweep. -/
structure RegisterCall where
  input : RegisterInput
  time : Int
  deps : SweepDeps
  before : List Bool
  after : List Bool

/-- A successful call of `register`. -/
structure Registered where
  entry : AgentRegistryEntry
  unread : Nat
  time : Int

structure SweepState where
  registry : AgentRegistry
  sweep : Sweep
  now : Int
  registered : List Registered

inductive SweepAction
  | register (call : RegisterCall)
  | heartbeat (instanceId : String) (time : Int)
  | unregister (instanceId : String)
  /-- The eviction of stale entries. -/
  | stale (time : Int)

/-- `register` with the listeners: the registry, the entry if it does not throw, and the sweep. -/
def registerCall (s : SweepState) (call : RegisterCall) :
    AgentRegistry × Option AgentRegistryEntry × Sweep :=
  match s.registry.register call.input call.time with
  | none => (s.registry, none, s.sweep)
  | some (registry, entry) =>
      -- only a new entry fires the event
      if (s.registry.get call.input.instanceId).isSome then (registry, some entry, s.sweep)
      else
        let listeners := call.before.map foreignListener ++
          sweepListener call.deps entry.instanceId :: call.after.map foreignListener
        match notify listeners (registry, s.sweep) with
        | .ok (registry, sweep) => (registry, some entry, sweep)
        | .error (registry, sweep) => (registry, none, sweep)

/-- The clock does not go back. -/
def sweepStep (s : SweepState) : SweepAction → Option SweepState
  | .register call =>
      if s.now ≤ call.time ∧ call.time ≤ call.deps.now then
        some
          { registry := (registerCall s call).1
            sweep := (registerCall s call).2.2
            now := call.deps.now
            registered :=
              match (registerCall s call).2.1 with
              | none => s.registered
              | some entry => ⟨entry, call.deps.unread, call.deps.now⟩ :: s.registered }
      else none
  | .heartbeat instanceId time =>
      if s.now ≤ time then
        some
          { s with
            registry := ((s.registry.heartbeat instanceId time).map Prod.fst).getD s.registry
            now := time }
      else none
  | .unregister instanceId => some { s with registry := s.registry.unregister instanceId }
  | .stale time =>
      if s.now ≤ time then some { s with registry := s.registry.sweep time, now := time } else none

/-- A registry with the sweep attached, from a time on. -/
def sweepMachine (registry : AgentRegistry) (coalesceMs start : Int) :
    Machine SweepState SweepAction where
  init := ⟨registry, ⟨.new coalesceMs, []⟩, start, []⟩
  step := sweepStep

/-! ## What a registration does -/

variable {s s' : SweepState} {call : RegisterCall} {entry : AgentRegistryEntry} {windowMs start : Int}

theorem notify_foreign (throws : List Bool) (reached : Reached) :
    notify (throws.map foreignListener) reached = .ok reached := by
  induction throws with
  | nil => rfl
  | cons throw throws ih => cases throw <;> exact ih

/-- Other listeners do not matter, whether they throw or not. -/
theorem notify_sweep (before after : List Bool) (registry : AgentRegistry) (deps : SweepDeps)
    (instanceId : String) (sweep : Sweep) :
    notify (before.map foreignListener ++
        sweepListener deps instanceId :: after.map foreignListener) (registry, sweep) =
      .ok (registry, sweepInstance registry deps sweep instanceId) := by
  have hbefore := notify_foreign before (registry, sweep)
  rw [notify] at hbefore ⊢
  rw [List.foldlM_append, hbefore]
  exact notify_foreign after _

/-- The registry's own entry of an instance. -/
theorem find_list (registry : AgentRegistry) (instanceId : String) :
    (registry.list.find? fun e => e.instanceId = instanceId) = registry.get instanceId := by
  have hkeys : ∀ p ∈ registry.entries.entries,
      decide (p.2.instanceId = instanceId) = decide (p.1 = instanceId) := by
    intro p hp
    rw [registry.keyed p.1 p.2 (InsertionMap.get_eq_some_iff.mpr hp)]
  rw [AgentRegistry.list, InsertionMap.values, List.find?_map, AgentRegistry.get, InsertionMap.get]
  exact congrArg (Option.map Prod.snd) (List.find?_congr hkeys)

theorem get_put (registry : AgentRegistry) (entry : AgentRegistryEntry) :
    (registry.put entry).get entry.instanceId = some entry := by
  rw [AgentRegistry.get, AgentRegistry.put, InsertionMap.get_set, if_pos rfl]

/-- The URI that a registration ends with: a known instance keeps its own. -/
def registeredUri (registry : AgentRegistry) (input : RegisterInput) : String :=
  match registry.get input.instanceId with
  | some existing => existing.spiffeUri
  | none => input.spiffeUri

/-- The registration of a known instance fires no event. -/
theorem registerCall_of_known {existing : AgentRegistryEntry}
    (h : s.registry.get call.input.instanceId = some existing) :
    registerCall s call =
      (s.registry.put { existing with lastHeartbeatAt := call.time },
        some { existing with lastHeartbeatAt := call.time }, s.sweep) := by
  rw [registerCall, AgentRegistry.register, h]
  rfl

theorem registerCall_of_full (h : s.registry.get call.input.instanceId = none)
    (hfull : s.registry.maxEntries ≤ s.registry.entries.size) :
    registerCall s call = (s.registry, none, s.sweep) := by
  rw [registerCall, AgentRegistry.register, h, if_pos hfull]

/-- The registration of a new instance sweeps exactly that instance. -/
theorem registerCall_of_new (h : s.registry.get call.input.instanceId = none)
    (hfree : ¬ s.registry.maxEntries ≤ s.registry.entries.size) :
    registerCall s call =
      (s.registry.put (AgentRegistry.newEntry call.input call.time),
        some (AgentRegistry.newEntry call.input call.time),
        if isSweepTarget call.deps (AgentRegistry.newEntry call.input call.time) then
          emitFor call.deps s.sweep (AgentRegistry.newEntry call.input call.time)
        else s.sweep) := by
  rw [registerCall, AgentRegistry.register, h, if_neg hfree]
  dsimp only
  rw [if_neg (by simp), notify_sweep, sweepInstance, find_list, get_put]

/-- Whatever throws, the registry and what `register` returns are those of a `register` without
listeners. -/
theorem registerCall_throws (s : SweepState) (call : RegisterCall) :
    (registerCall s call).1 =
        ((s.registry.register call.input call.time).map Prod.fst).getD s.registry ∧
      (registerCall s call).2.1 =
        (s.registry.register call.input call.time).map Prod.snd := by
  unfold registerCall
  cases s.registry.register call.input call.time with
  | none => exact ⟨rfl, rfl⟩
  | some registered =>
      dsimp only
      split_ifs with hknown
      · exact ⟨rfl, rfl⟩
      · rw [notify_sweep]
        exact ⟨rfl, rfl⟩

/-! ## Every instance with unread mail is woken -/

/-- The sweep has woken an instance within the window before a time. -/
def SweptWithin (windowMs : Int) (wakes : List SweepWake) (instanceId : String) (t : Int) : Prop :=
  ∃ w ∈ wakes, w.instance_id = instanceId ∧ (w.time = t ∨ t - windowMs < w.time) ∧ w.time ≤ t

/-- A wake-up is for an instance that registered with unread mail just then. -/
def Caused (registered : List Registered) (w : SweepWake) : Prop :=
  ∃ r ∈ registered, 0 < r.unread ∧ w = ⟨r.entry.instanceId, r.entry.spiffeUri, r.time⟩

/-- Every instance that has registered with unread mail and a URI was woken, and nobody else. -/
structure SweepReaches (windowMs : Int) (s : SweepState) : Prop where
  reaches : ∀ r ∈ s.registered, 0 < r.unread → r.entry.spiffeUri ≠ "" →
    SweptWithin windowMs s.sweep.wakes r.entry.instanceId r.time
  only : ∀ w ∈ s.sweep.wakes, Caused s.registered w

/-- A step wakes nobody, or it is a registration and wakes the instance that it returns, once. -/
def WakesOwn (s : SweepState) (action : SweepAction) (s' : SweepState) : Prop :=
  s'.sweep.wakes = s.sweep.wakes ∨
    ∃ call entry, action = .register call ∧ (registerCall s call).2.1 = some entry ∧
      0 < call.deps.unread ∧ s'.sweep.wakes =
        ⟨entry.instanceId, entry.spiffeUri, call.deps.now⟩ :: s.sweep.wakes

/-- A registration with unread mail that the coalescer of the sweep lets through is one of an
instance that the registry does not know, and neither the counter nor the bus throws. -/
def Fires (s : SweepState) : SweepAction → Prop
  | .register call =>
      0 < call.deps.unread → registeredUri s.registry call.input ≠ "" →
        s.sweep.coalescer.admits call.input.instanceId call.deps.now = true →
          s.registry.get call.input.instanceId = none ∧
            (s.registry.entries.size < s.registry.maxEntries →
              call.input.instanceId ≠ "" ∧ call.deps.counterThrows = false ∧
                call.deps.emitThrows = false)
  | _ => True

instance (s : SweepState) : ∀ action, Decidable (Fires s action)
  | .register _ => inferInstanceAs (Decidable (_ → _))
  | .heartbeat .. | .unregister _ | .stale _ => inferInstanceAs (Decidable True)

/-- The invariant: what the sweep remembers, it has emitted. -/
structure SweepTruthful (windowMs : Int) (s : SweepState) : Prop where
  window : s.sweep.coalescer.window = windowMs
  remembered : ∀ id t, s.sweep.coalescer.last.get id = some t →
    t ≤ s.now ∧ ∃ w ∈ s.sweep.wakes, w.instance_id = id ∧ w.time = t
  reaches : ∀ r ∈ s.registered, 0 < r.unread → r.entry.spiffeUri ≠ "" →
    SweptWithin windowMs s.sweep.wakes r.entry.instanceId r.time

theorem SweepTruthful.of_sweep_eq (h : SweepTruthful windowMs s) (hsweep : s'.sweep = s.sweep)
    (hnow : s.now ≤ s'.now) (hregistered : s'.registered = s.registered) :
    SweepTruthful windowMs s' := by
  refine ⟨hsweep ▸ h.window, fun id t hget => ?_, fun r hr => ?_⟩
  · rw [hsweep] at hget ⊢
    exact ⟨(h.remembered id t hget).1.trans hnow, (h.remembered id t hget).2⟩
  · rw [hsweep]
    exact h.reaches r (hregistered ▸ hr)

/-- What the coalescer does not let through was swept within the window. -/
theorem SweepTruthful.swept {id : String} {t : Int} (h : SweepTruthful windowMs s)
    (hnow : s.now ≤ t) (hadmits : s.sweep.coalescer.admits id t = false) :
    SweptWithin windowMs s.sweep.wakes id t := by
  obtain ⟨prev, hprev, hwithin⟩ := Coalescer.exists_of_not_admits hadmits
  obtain ⟨hle, w, hw, hid, htime⟩ := h.remembered id prev hprev
  rw [h.window] at hwithin
  exact ⟨w, hw, hid, .inr (by omega), by omega⟩

/-- A registration that the sweep does not see. -/
theorem SweepTruthful.registered (h : SweepTruthful windowMs s) (hsweep : s'.sweep = s.sweep)
    (hnow : s.now ≤ s'.now) (hregistered : s'.registered = ⟨entry, unread, s'.now⟩ :: s.registered)
    (hswept : 0 < unread → entry.spiffeUri ≠ "" →
      SweptWithin windowMs s.sweep.wakes entry.instanceId s'.now) : SweepTruthful windowMs s' := by
  refine ⟨hsweep ▸ h.window, fun id t hget => ?_, fun r hr => ?_⟩
  · rw [hsweep] at hget ⊢
    exact ⟨(h.remembered id t hget).1.trans hnow, (h.remembered id t hget).2⟩
  · rw [hregistered] at hr
    rw [hsweep]
    rcases List.mem_cons.mp hr with rfl | hr
    · exact hswept
    · exact h.reaches r hr

/-- A sweep that emits its wake-up remembers it, and nothing else. -/
theorem emitFor_of_admits (deps : SweepDeps) (sweep : Sweep) (target : AgentRegistryEntry)
    (hadmits : sweep.coalescer.admits target.instanceId deps.now = true)
    (hemit : deps.emitThrows = false) :
    emitFor deps sweep target =
      { coalescer := (sweep.coalescer.ask target.instanceId deps.now).2
        wakes := ⟨target.instanceId, target.spiffeUri, deps.now⟩ :: sweep.wakes } := by
  have hask : sweep.coalescer.ask target.instanceId deps.now =
      (true, (sweep.coalescer.ask target.instanceId deps.now).2) :=
    Prod.ext ((Coalescer.ask_fst ..).trans hadmits) rfl
  rw [emitFor, shouldWake, hask, hemit]
  rfl

theorem emitFor_of_not_admits (deps : SweepDeps) (sweep : Sweep) (target : AgentRegistryEntry)
    (hadmits : sweep.coalescer.admits target.instanceId deps.now = false) :
    emitFor deps sweep target = sweep := by
  have hask : sweep.coalescer.ask target.instanceId deps.now = (false, sweep.coalescer) := by
    rw [Coalescer.ask, hadmits]
    rfl
  rw [emitFor, shouldWake, hask]
  rfl

theorem isSweepTarget_iff (deps : SweepDeps) (entry : AgentRegistryEntry) :
    isSweepTarget deps entry = true ↔
      entry.instanceId ≠ "" ∧ entry.spiffeUri ≠ "" ∧ deps.counterThrows = false ∧
        0 < deps.unread := by
  simp [isSweepTarget]

/-- A new instance is swept. -/
theorem SweepTruthful.swept_new (h : SweepTruthful windowMs s) (hfires : Fires s (.register call))
    (hnew : s.registry.get call.input.instanceId = none)
    (hfree : ¬ s.registry.maxEntries ≤ s.registry.entries.size)
    (hclock : s.now ≤ call.deps.now) (hsweep : s'.sweep = (registerCall s call).2.2)
    (hnow : s'.now = call.deps.now)
    (hregistered : s'.registered =
      ⟨AgentRegistry.newEntry call.input call.time, call.deps.unread, call.deps.now⟩ ::
        s.registered) : SweepTruthful windowMs s' := by
  rw [registerCall_of_new hnew hfree] at hsweep
  have huri : registeredUri s.registry call.input = call.input.spiffeUri := by
    rw [registeredUri, hnew]
  rw [← hnow] at hregistered
  cases htarget : isSweepTarget call.deps (AgentRegistry.newEntry call.input call.time) with
  | false =>
      rw [htarget, if_neg Bool.false_ne_true] at hsweep
      refine h.registered hsweep (hnow ▸ hclock) hregistered fun hunread hne => ?_
      cases hadmits : s.sweep.coalescer.admits call.input.instanceId call.deps.now with
      | false => exact hnow ▸ h.swept hclock hadmits
      | true =>
          -- it is one that passes, and then it is a target
          obtain ⟨hid, hcounter, -⟩ := (hfires hunread (huri ▸ hne) hadmits).2 (not_le.mp hfree)
          have := (isSweepTarget_iff _ _).mpr ⟨hid, hne, hcounter, hunread⟩
          rw [htarget] at this
          cases this
  | true =>
      obtain ⟨hid, hne, hcounter, hunread⟩ := (isSweepTarget_iff _ _).mp htarget
      rw [htarget, if_pos rfl] at hsweep
      cases hadmits : s.sweep.coalescer.admits call.input.instanceId call.deps.now with
      | false =>
          rw [emitFor_of_not_admits _ _ _ hadmits] at hsweep
          exact h.registered hsweep (hnow ▸ hclock) hregistered
            fun _ _ => hnow ▸ h.swept hclock hadmits
      | true =>
          obtain ⟨-, -, hemit⟩ := (hfires hunread (huri ▸ hne) hadmits).2 (not_le.mp hfree)
          rw [emitFor_of_admits _ _ _ hadmits hemit] at hsweep
          refine ⟨?_, fun id t hget => ?_, fun r hr => ?_⟩
          · rw [hsweep, Coalescer.window_ask, h.window]
          · rw [hsweep] at hget ⊢
            rcases Coalescer.get_ask hget with hold | ⟨-, rfl, rfl⟩
            · obtain ⟨hle, w, hw, hfacts⟩ := h.remembered id t hold
              exact ⟨hle.trans (hnow ▸ hclock), w, List.mem_cons_of_mem _ hw, hfacts⟩
            · exact ⟨hnow.ge, _, List.mem_cons_self, rfl, rfl⟩
          · rw [hregistered] at hr
            rw [hsweep]
            rcases List.mem_cons.mp hr with rfl | hr
            · exact fun _ _ => ⟨_, List.mem_cons_self, rfl, .inl hnow.symm, hnow.ge⟩
            · intro hr' hne'
              obtain ⟨w, hw, hfacts⟩ := h.reaches r hr hr' hne'
              exact ⟨w, List.mem_cons_of_mem _ hw, hfacts⟩

theorem sweepTruthful_register (h : SweepTruthful windowMs s) (hfires : Fires s (.register call))
    (hs : sweepStep s (.register call) = some s') : SweepTruthful windowMs s' := by
  rw [sweepStep] at hs
  split_ifs at hs with htime
  obtain rfl := Option.some.inj hs
  have hclock : s.now ≤ call.deps.now := htime.1.trans htime.2
  cases hknown : s.registry.get call.input.instanceId with
  | some existing =>
      have hcall := registerCall_of_known hknown
      have huri : registeredUri s.registry call.input = existing.spiffeUri := by
        rw [registeredUri, hknown]
      have hid : existing.instanceId = call.input.instanceId := s.registry.keyed _ _ hknown
      rw [hcall]
      refine h.registered rfl hclock rfl fun hunread hne => ?_
      -- a known id fires no event, so a wake-up is due only if it was suppressed
      cases hadmits : s.sweep.coalescer.admits call.input.instanceId call.deps.now with
      | false => exact hid ▸ h.swept hclock hadmits
      | true =>
          have hnone := (hfires hunread (huri ▸ hne) hadmits).1
          rw [hknown] at hnone
          cases hnone
  | none =>
      by_cases hfull : s.registry.maxEntries ≤ s.registry.entries.size
      · rw [registerCall_of_full hknown hfull]
        exact h.of_sweep_eq rfl hclock rfl
      · refine h.swept_new hfires hknown hfull hclock rfl rfl ?_
        rw [registerCall_of_new hknown hfull]

theorem sweepTruthful_step {action : SweepAction} (h : SweepTruthful windowMs s)
    (hfires : Fires s action) (hs : sweepStep s action = some s') : SweepTruthful windowMs s' := by
  cases action with
  | register call => exact sweepTruthful_register h hfires hs
  | heartbeat instanceId time =>
      rw [sweepStep] at hs
      split_ifs at hs with htime
      obtain rfl := Option.some.inj hs
      exact h.of_sweep_eq rfl htime rfl
  | unregister instanceId =>
      obtain rfl := Option.some.inj hs
      exact h.of_sweep_eq rfl le_rfl rfl
  | stale time =>
      rw [sweepStep] at hs
      split_ifs at hs with htime
      obtain rfl := Option.some.inj hs
      exact h.of_sweep_eq rfl htime rfl

/-! ## Nobody else is woken -/

theorem emitFor_wakes (deps : SweepDeps) (sweep : Sweep) (target : AgentRegistryEntry) :
    (emitFor deps sweep target).wakes = sweep.wakes ∨
      (emitFor deps sweep target).wakes =
        ⟨target.instanceId, target.spiffeUri, deps.now⟩ :: sweep.wakes := by
  rw [emitFor]
  dsimp only
  split_ifs
  · exact .inl rfl
  · exact .inl rfl
  · exact .inr rfl

theorem registerCall_wakes (s : SweepState) (call : RegisterCall) :
    (registerCall s call).2.2.wakes = s.sweep.wakes ∨
      ∃ entry, (registerCall s call).2.1 = some entry ∧ 0 < call.deps.unread ∧
        (registerCall s call).2.2.wakes =
          ⟨entry.instanceId, entry.spiffeUri, call.deps.now⟩ :: s.sweep.wakes := by
  cases hknown : s.registry.get call.input.instanceId with
  | some existing =>
      rw [registerCall_of_known hknown]
      exact .inl rfl
  | none =>
      by_cases hfull : s.registry.maxEntries ≤ s.registry.entries.size
      · rw [registerCall_of_full hknown hfull]
        exact .inl rfl
      · rw [registerCall_of_new hknown hfull]
        cases htarget : isSweepTarget call.deps (AgentRegistry.newEntry call.input call.time) with
        | false => exact .inl rfl
        | true =>
            obtain ⟨-, -, -, hunread⟩ := (isSweepTarget_iff _ _).mp htarget
            rw [if_pos rfl]
            exact (emitFor_wakes ..).imp_right fun hwakes => ⟨_, rfl, hunread, hwakes⟩

theorem wakesOwn_step {action : SweepAction} (hs : sweepStep s action = some s') :
    WakesOwn s action s' := by
  cases action with
  | register call =>
      rw [sweepStep] at hs
      split_ifs at hs
      obtain rfl := Option.some.inj hs
      refine (registerCall_wakes s call).imp_right ?_
      rintro ⟨entry, hentry, hunread, hwakes⟩
      exact ⟨call, entry, rfl, hentry, hunread, hwakes⟩
  | heartbeat instanceId time | stale time =>
      rw [sweepStep] at hs
      split_ifs at hs
      obtain rfl := Option.some.inj hs
      exact .inl rfl
  | unregister instanceId =>
      obtain rfl := Option.some.inj hs
      exact .inl rfl

/-- What has registered stays written down, with what a step adds. -/
theorem registered_step {action : SweepAction} (hs : sweepStep s action = some s') :
    (∀ r ∈ s.registered, r ∈ s'.registered) ∧
      ∀ call entry, action = .register call → (registerCall s call).2.1 = some entry →
        ⟨entry, call.deps.unread, call.deps.now⟩ ∈ s'.registered := by
  cases action with
  | register call =>
      rw [sweepStep] at hs
      split_ifs at hs
      obtain rfl := Option.some.inj hs
      refine ⟨fun r hr => ?_, ?_⟩
      · dsimp only
        split
        · exact hr
        · exact List.mem_cons_of_mem _ hr
      · intro other entry hother hentry
        cases hother
        dsimp only
        rw [hentry]
        exact List.mem_cons_self
  | heartbeat instanceId time | stale time =>
      rw [sweepStep] at hs
      split_ifs at hs
      obtain rfl := Option.some.inj hs
      exact ⟨fun _ => id, fun _ _ h => nomatch h⟩
  | unregister instanceId =>
      obtain rfl := Option.some.inj hs
      exact ⟨fun _ => id, fun _ _ h => nomatch h⟩

theorem caused_of_reachable {registry : AgentRegistry}
    (hs : (sweepMachine registry windowMs start).Reachable s) :
    ∀ w ∈ s.sweep.wakes, Caused s.registered w := by
  refine Machine.Reachable.invariant (M := sweepMachine registry windowMs start)
    (I := fun s => ∀ w ∈ s.sweep.wakes, Caused s.registered w)
    (fun w hw => absurd hw List.not_mem_nil) (fun s action s' ih hstep w hw => ?_) hs
  obtain ⟨hkept, hadded⟩ := registered_step hstep
  have hold : w ∈ s.sweep.wakes → Caused s'.registered w := by
    intro hw
    obtain ⟨r, hr, hfacts⟩ := ih w hw
    exact ⟨r, hkept r hr, hfacts⟩
  rcases wakesOwn_step hstep with hsame | ⟨call, entry, haction, hentry, hunread, hwakes⟩
  · exact hold (hsame ▸ hw)
  · rcases List.mem_cons.mp (hwakes ▸ hw) with rfl | hw
    · exact ⟨_, hadded call entry haction hentry, hunread, rfl⟩
    · exact hold hw

/-- Where every registration with unread mail that the coalescer lets through is one of a new
instance, and nothing throws, each is woken.  In every run a registration wakes its own instance at
most, and whatever throws, it does what it does without listeners. -/
theorem sweep_reaches (heartbeatIntervalMs staleFactor maxEntries : Nat) (windowMs start : Int) :
    (∀ s, (sweepMachine (.new heartbeatIntervalMs staleFactor maxEntries) windowMs
        start).ReachableUnder Fires s → SweepReaches windowMs s) ∧
      (∀ s action s', sweepStep s action = some s' → WakesOwn s action s') ∧
      ∀ (s : SweepState) (call : RegisterCall),
        (registerCall s call).1 =
            ((s.registry.register call.input call.time).map Prod.fst).getD s.registry ∧
          (registerCall s call).2.1 =
            (s.registry.register call.input call.time).map Prod.snd := by
  refine ⟨fun s hs => ⟨?_, caused_of_reachable hs.reachable⟩, fun _ _ _ => wakesOwn_step,
    registerCall_throws⟩
  have hinit : SweepTruthful windowMs
      (sweepMachine (.new heartbeatIntervalMs staleFactor maxEntries) windowMs start).init :=
    ⟨rfl, fun _ _ hget => (nomatch hget), fun _ hr => (nomatch hr)⟩
  exact (hs.invariant hinit fun _ _ _ h hC hstep => sweepTruthful_step h hC hstep).reaches

/-- An instance that registers with mail. -/
def arrival (time : Int) (unread : Nat) : RegisterCall :=
  ⟨⟨"sess-1", "claude-code", "spiffe://thinklocal/node/n/instance/sess-1", none, none⟩, time,
    ⟨unread, false, false, time⟩, [true], []⟩

/-- An instance that has left and registers again with mail is woken. -/
theorem sweep_reaches_again :
    ∃ s, (sweepMachine (.new 5000 3 10) 2000 0).ReachableUnder Fires s ∧
      s.sweep.wakes = [⟨"sess-1", "spiffe://thinklocal/node/n/instance/sess-1", 9⟩] ∧
        SweepReaches 2000 s := by
  let actions : List SweepAction :=
    [.register (arrival 1 0), .unregister "sess-1", .register (arrival 9 3)]
  have hrun : (((sweepMachine (.new 5000 3 10) 2000 0).runFrom
      (sweepMachine (.new 5000 3 10) 2000 0).init actions).map fun s => s.sweep.wakes) =
        some [⟨"sess-1", "spiffe://thinklocal/node/n/instance/sess-1", 9⟩] := by
    decide +kernel
  have hmeets : (sweepMachine (.new 5000 3 10) 2000 0).Meets Fires
      (sweepMachine (.new 5000 3 10) 2000 0).init actions := by
    decide +kernel
  obtain ⟨s, hs, hwakes⟩ := Option.map_eq_some_iff.mp hrun
  have hreach := Machine.ReachableUnder.init.runFrom hmeets hs
  exact ⟨s, hreach, hwakes, (sweep_reaches 5000 3 10 2000 0).1 s hreach⟩

/-- An instance that registers again while the registry still knows it is not woken. -/
theorem restart_not_swept :
    ∃ s, (sweepMachine (.new 5000 3 10) 2000 0).Reachable s ∧ ¬ SweepReaches 2000 s := by
  let actions : List SweepAction := [.register (arrival 1 0), .register (arrival 9000 3)]
  have hrun : (((sweepMachine (.new 5000 3 10) 2000 0).runFrom
      (sweepMachine (.new 5000 3 10) 2000 0).init actions).map fun s =>
        (s.sweep.wakes, s.registered.any fun r => decide (0 < r.unread ∧ r.entry.spiffeUri ≠ ""))) =
          some ([], true) := by
    decide +kernel
  obtain ⟨s, hs, hfacts⟩ := Option.map_eq_some_iff.mp hrun
  obtain ⟨hwakes, hany⟩ := Prod.ext_iff.mp hfacts
  refine ⟨s, Machine.reachable_of_runFrom hs, fun hreaches => ?_⟩
  obtain ⟨r, hr, hr'⟩ := List.any_eq_true.mp hany
  obtain ⟨hunread, hne⟩ := of_decide_eq_true hr'
  obtain ⟨w, hw, -⟩ := hreaches.reaches r hr hunread hne
  have hnone : s.sweep.wakes = [] := hwakes
  rw [hnone] at hw
  cases hw

end ThinkLocal.Wake
