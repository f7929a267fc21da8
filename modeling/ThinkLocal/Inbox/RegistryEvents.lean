import ThinkLocal.Inbox.AgentRegistry
import ThinkLocal.Js.Number

/-!
# The events of the agent registry

`AgentRegistry` of `agent-registry.ts` with listeners that call back.  While the listeners of an
event run, the call that has emitted it waits on a stack and every other call may begin; a sweep
goes on with its iterator over the map, which sees what was added meanwhile.
-/

namespace ThinkLocal.Inbox

open Foundation Js

/-! ## The map -/

/-- The entries of a `Map` in the order of their insertion; an entry that is deleted leaves its
place empty, and an iterator is a position. -/
abbrev RegistrySlots := List (Option AgentRegistryEntry)

namespace RegistrySlots

/-- The entries that are present. -/
def live (slots : RegistrySlots) : List AgentRegistryEntry := slots.filterMap id

def ids (slots : RegistrySlots) : List String := (live slots).map AgentRegistryEntry.instanceId

def find (slots : RegistrySlots) (instanceId : String) : Option AgentRegistryEntry :=
  (live slots).find? fun entry => entry.instanceId = instanceId

def delete (slots : RegistrySlots) (instanceId : String) : RegistrySlots :=
  slots.map fun slot => slot.filter fun entry => entry.instanceId ≠ instanceId

/-- Sets the time of the last heartbeat of an entry in its place. -/
def touch (slots : RegistrySlots) (instanceId : String) (now : ℤ) : RegistrySlots :=
  slots.map fun slot => slot.map fun entry =>
    if entry.instanceId = instanceId then { entry with lastHeartbeatAt := now } else entry

end RegistrySlots

/-! ## Calls -/

/-- The options that the constructor accepts: a finite number of entries from one on, which need
not be whole, and a threshold `heartbeatIntervalMs * staleFactor` that is not zero or less. -/
structure RegistryOptions where
  maxEntries : ℚ
  threshold : Number
  one_le_maxEntries : 1 ≤ maxEntries
  threshold_pos : threshold.le (.ofInt 0) = false

/-- Is a time too long ago? -/
def RegistryOptions.tooOld (opts : RegistryOptions) (now time : ℤ) : Bool :=
  opts.threshold.lt (.ofInt (now - time))

def RegistryOptions.stale (opts : RegistryOptions) (now : ℤ) (entry : AgentRegistryEntry) : Bool :=
  opts.tooOld now entry.lastHeartbeatAt

inductive RegistryReason
  | register
  | unregister
  | stale
  deriving DecidableEq, Repr

structure RegistryEvent where
  reason : RegistryReason
  entry : AgentRegistryEntry
  deriving DecidableEq

/-- A sweep: its reading of the clock, the position of its iterator and what it has evicted. -/
structure RegistrySweep where
  now : ℤ
  position : ℕ
  evicted : List AgentRegistryEntry

/-- A call whose event is with the listeners. -/
inductive RegistryFrame
  | register (entry : AgentRegistryEntry)
  | unregister (entry : AgentRegistryEntry)
  | sweep (sweep : RegistrySweep)

/-- A call of `register` or `heartbeat`, and its time. -/
structure RegistryCall where
  instanceId : String
  time : ℤ

/-- The map, the waiting calls, the last reading of the clock, the emitted events and the calls by
which instances were heard of, the newest first, and the sweeps that have returned. -/
structure RegistryState where
  slots : RegistrySlots
  stack : List RegistryFrame
  now : ℤ
  events : List RegistryEvent
  calls : List RegistryCall
  sweeps : List RegistrySweep

inductive RegistryAction
  | register (input : RegisterInput) (now : ℤ)
  | heartbeat (instanceId : String) (now : ℤ)
  | unregister (instanceId : String)
  | sweep (now : ℤ)
  /-- The listeners of the innermost event are through. -/
  | back

namespace RegistryState

variable (opts : RegistryOptions) (s : RegistryState)

def emit (reason : RegistryReason) (entry : AgentRegistryEntry) (frame : RegistryFrame) :
    RegistryState :=
  { s with events := ⟨reason, entry⟩ :: s.events, stack := frame :: s.stack }

/-- A full registry throws and keeps what it has. -/
def register (input : RegisterInput) (now : ℤ) : RegistryState :=
  match s.slots.find input.instanceId with
  | some _ => { s with slots := s.slots.touch input.instanceId now, now := now }
  | none =>
      -- `entries.size >= maxEntries`
      if opts.maxEntries ≤ s.slots.live.length then { s with now := now }
      else
        let entry := AgentRegistry.newEntry input now
        { s with slots := s.slots ++ [some entry], now := now }.emit .register entry
          (.register entry)

def heartbeat (instanceId : String) (now : ℤ) : RegistryState :=
  match s.slots.find instanceId with
  | none => s
  | some _ => { s with slots := s.slots.touch instanceId now, now := now }

def unregister (instanceId : String) : RegistryState :=
  match s.slots.find instanceId with
  | none => s
  | some entry =>
      { s with slots := s.slots.delete instanceId }.emit .unregister entry (.unregister entry)

/-- The loop of `sweep` up to the next event or its end. -/
def continueSweep (sweep : RegistrySweep) : RegistryState :=
  match (s.slots.drop sweep.position).findIdx? fun slot => slot.any (opts.stale sweep.now) with
  | none => { s with sweeps := s.sweeps ++ [sweep] }
  | some i =>
      match (s.slots[sweep.position + i]?).join with
      | none => s
      | some entry =>
          { s with slots := s.slots.delete entry.instanceId }.emit .stale entry
            (.sweep { sweep with
              position := sweep.position + i + 1, evicted := sweep.evicted ++ [entry] })

/-- The call is written down, whatever it does. -/
def hear (call : RegistryCall) : RegistryState := { s with calls := call :: s.calls }

end RegistryState

def registryMachine (opts : RegistryOptions) (start : ℤ) :
    Machine RegistryState RegistryAction where
  init := ⟨[], [], start, [], [], []⟩
  step s
    | .register input now =>
        if s.now ≤ now then some ((s.register opts input now).hear ⟨input.instanceId, now⟩)
        else none
    | .heartbeat instanceId now =>
        if s.now ≤ now then some ((s.heartbeat instanceId now).hear ⟨instanceId, now⟩) else none
    | .unregister instanceId => some (s.unregister instanceId)
    | .sweep now =>
        if s.now ≤ now then some ({ s with now := now }.continueSweep opts ⟨now, 0, []⟩) else none
    | .back => match s.stack with
        | [] => none
        | .register _ :: rest | .unregister _ :: rest => some { s with stack := rest }
        | .sweep sweep :: rest => some ({ s with stack := rest }.continueSweep opts sweep)

/-! ## The law of the registry -/

/-- The events of an id, the newest first. -/
def reasonsOf (instanceId : String) (events : List RegistryEvent) : List RegistryReason :=
  (events.filter fun event => event.entry.instanceId = instanceId).map RegistryEvent.reason

/-- Registrations and removals alternate, beginning with a registration. -/
def Alternates : List RegistryReason → Prop
  | [] => True
  | .register :: earlier => earlier.head? ≠ some .register ∧ Alternates earlier
  | .unregister :: earlier | .stale :: earlier =>
      earlier.head? = some .register ∧ Alternates earlier

/-- When an instance was last heard of. -/
def lastHeard (instanceId : String) (calls : List RegistryCall) : Option ℤ :=
  (calls.find? fun call => call.instanceId = instanceId).map RegistryCall.time

/-- The sweeps that wait and those that have returned. -/
def RegistryState.HasSweep (s : RegistryState) (sweep : RegistrySweep) : Prop :=
  .sweep sweep ∈ s.stack ∨ sweep ∈ s.sweeps

/-- What the registry owes in a state, apart from the number of its entries. -/
structure RegistryKept (opts : RegistryOptions) (s : RegistryState) : Prop where
  /-- A refused registration changes nothing but the reading of the clock. -/
  refused : ∀ start input now s',
    (registryMachine opts start).step s (.register input now) = some s' →
    input.instanceId ∉ s.slots.ids → opts.maxEntries ≤ s.slots.live.length →
    s' = { s with now := now, calls := ⟨input.instanceId, now⟩ :: s.calls }
  /-- An entry has the time of the last call by which its instance was heard of. -/
  heard : ∀ entry ∈ s.slots.live,
    lastHeard entry.instanceId s.calls = some entry.lastHeartbeatAt
  /-- A sweep goes by the clock of its own call. -/
  reading : ∀ start action s' sweep, (registryMachine opts start).step s action = some s' →
    s'.HasSweep sweep → s.HasSweep sweep ∨ action = .sweep sweep.now ∨
      ∃ earlier, s.stack.head? = some (.sweep earlier) ∧ earlier.now = sweep.now
  /-- What a sweep evicts has not been heard of for too long. -/
  evicts : ∀ start action s' entry, (registryMachine opts start).step s action = some s' →
    s'.events = ⟨.stale, entry⟩ :: s.events →
    ∃ sweep time, s'.stack.head? = some (.sweep sweep) ∧ entry ∈ sweep.evicted ∧
      lastHeard entry.instanceId s.calls = some time ∧ opts.tooOld sweep.now time = true
  /-- When a sweep returns, it leaves no such entry. -/
  complete : ∀ start action s' sweep, (registryMachine opts start).step s action = some s' →
    s'.sweeps = s.sweeps ++ [sweep] → ∀ entry ∈ s'.slots.live, ∀ time,
    lastHeard entry.instanceId s'.calls = some time → opts.tooOld sweep.now time = false
  /-- The events of every id alternate, and tell whether it is registered. -/
  events : ∀ instanceId, Alternates (reasonsOf instanceId s.events) ∧
    ((reasonsOf instanceId s.events).head? = some .register ↔ instanceId ∈ s.slots.ids)

/-- What the registry owes in a state. -/
structure RegistryLaw (opts : RegistryOptions) (s : RegistryState) : Prop
    extends RegistryKept opts s where
  bounded : (s.slots.live.length : ℚ) ≤ opts.maxEntries

section Laws

variable {opts : RegistryOptions} {s s' : RegistryState} {slots : RegistrySlots}
  {instanceId : String} {now later : ℤ} {entry : AgentRegistryEntry} {sweep : RegistrySweep} {i : ℕ}

namespace RegistrySlots

@[simp] theorem live_append (slots : RegistrySlots) (entry : AgentRegistryEntry) :
    live (slots ++ [some entry]) = live slots ++ [entry] := by
  simp [live]

theorem live_delete (slots : RegistrySlots) (instanceId : String) :
    live (delete slots instanceId) =
      (live slots).filter fun entry => entry.instanceId ≠ instanceId := by
  induction slots with
  | nil => rfl
  | cons slot slots ih =>
      cases slot with
      | none => exact ih
      | some entry =>
          by_cases hentry : entry.instanceId = instanceId
          · simpa [live, delete, Option.filter, hentry] using ih
          · simpa [live, delete, Option.filter, hentry] using ih

theorem live_touch (slots : RegistrySlots) (instanceId : String) (now : ℤ) :
    live (touch slots instanceId now) = (live slots).map fun entry =>
      if entry.instanceId = instanceId then { entry with lastHeartbeatAt := now } else entry := by
  induction slots with
  | nil => rfl
  | cons slot slots ih =>
      cases slot with
      | none => exact ih
      | some entry => exact congrArg (List.cons _) ih

theorem mem_ids_delete {other : String} :
    other ∈ ids (delete slots instanceId) ↔ other ∈ ids slots ∧ other ≠ instanceId := by
  rw [ids, live_delete, ids]
  simp only [List.mem_map, List.mem_filter, decide_eq_true_eq]
  constructor
  · rintro ⟨entry, ⟨hentry, hne⟩, rfl⟩
    exact ⟨⟨entry, hentry, rfl⟩, hne⟩
  · rintro ⟨⟨entry, hentry, rfl⟩, hne⟩
    exact ⟨entry, ⟨hentry, hne⟩, rfl⟩

@[simp] theorem ids_touch (slots : RegistrySlots) (instanceId : String) (now : ℤ) :
    ids (touch slots instanceId now) = ids slots := by
  rw [ids, live_touch, List.map_map, ids]
  refine List.map_congr_left fun entry _ => ?_
  by_cases hentry : entry.instanceId = instanceId <;> simp [hentry]

theorem mem_live_of_find (h : find slots instanceId = some entry) :
    entry ∈ live slots ∧ entry.instanceId = instanceId :=
  ⟨List.mem_of_find?_eq_some h, by simpa using List.find?_some h⟩

theorem mem_ids_of_find (h : find slots instanceId = some entry) : instanceId ∈ ids slots :=
  List.mem_map.mpr ⟨entry, mem_live_of_find h⟩

theorem not_mem_ids_of_find (h : find slots instanceId = none) : instanceId ∉ ids slots := by
  rintro hmem
  obtain ⟨entry, hentry, heq⟩ := List.mem_map.mp hmem
  exact List.find?_eq_none.mp h entry hentry (decide_eq_true heq)

theorem mem_live_iff : entry ∈ live slots ↔ some entry ∈ slots := by
  simp [live]

theorem get_delete_eq_some (h : (delete slots instanceId)[i]? = some (some entry)) :
    slots[i]? = some (some entry) ∧ entry.instanceId ≠ instanceId := by
  rw [delete, List.getElem?_map] at h
  obtain ⟨slot, hslot, hfilter⟩ := Option.map_eq_some_iff.mp h
  obtain ⟨rfl, hne⟩ := Option.filter_eq_some_iff.mp hfilter
  exact ⟨hslot, of_decide_eq_true hne⟩

theorem get_touch_eq_some (h : (touch slots instanceId now)[i]? = some (some entry)) :
    ∃ old, slots[i]? = some (some old) ∧
      entry = if old.instanceId = instanceId then { old with lastHeartbeatAt := now } else old := by
  rw [touch, List.getElem?_map] at h
  obtain ⟨slot, hslot, hmap⟩ := Option.map_eq_some_iff.mp h
  obtain ⟨old, rfl, rfl⟩ := Option.map_eq_some_iff.mp hmap
  exact ⟨old, hslot, rfl⟩

end RegistrySlots

open RegistrySlots

/-! ## Sweeps -/

/-- An entry heard of after the sweep has read the clock is not stale to it. -/
theorem not_stale_of_le (h : now ≤ entry.lastHeartbeatAt) : opts.stale now entry = false := by
  refine Bool.eq_false_of_not_eq_true fun hstale => ?_
  have hlt : opts.threshold.lt (.ofInt (now - entry.lastHeartbeatAt)) = true := hstale
  have hle : opts.threshold.le (.ofInt (now - entry.lastHeartbeatAt)) = true := by
    rw [Number.le, hlt, Bool.true_or]
  have hzero := Number.le_ofInt_of_le (Int.sub_nonpos_of_le h) hle
  exact absurd (opts.threshold_pos.symm.trans hzero) Bool.noConfusion

/-- A sweep on its way: before its iterator no entry is stale to it. -/
structure SweepLaw (opts : RegistryOptions) (slots : RegistrySlots) (now : ℤ)
    (sweep : RegistrySweep) : Prop where
  past : sweep.now ≤ now
  position : sweep.position ≤ slots.length
  passed : ∀ i < sweep.position, ∀ entry, slots[i]? = some (some entry) →
    opts.stale sweep.now entry = false
  evicted : ∀ entry ∈ sweep.evicted, opts.stale sweep.now entry = true

theorem SweepLaw.wait (h : SweepLaw opts slots now sweep) (hlater : now ≤ later) :
    SweepLaw opts slots later sweep :=
  ⟨h.past.trans hlater, h.position, h.passed, h.evicted⟩

theorem SweepLaw.append (h : SweepLaw opts slots now sweep) (entry : AgentRegistryEntry) :
    SweepLaw opts (slots ++ [some entry]) now sweep := by
  refine ⟨h.past, h.position.trans (by simp), fun i hi other hother => ?_, h.evicted⟩
  rw [List.getElem?_append_left (hi.trans_le h.position)] at hother
  exact h.passed i hi other hother

theorem SweepLaw.delete (h : SweepLaw opts slots now sweep) (instanceId : String) :
    SweepLaw opts (slots.delete instanceId) now sweep := by
  refine ⟨h.past, h.position.trans (by simp [RegistrySlots.delete]), fun i hi other hother => ?_,
    h.evicted⟩
  exact h.passed i hi other (get_delete_eq_some hother).1

theorem SweepLaw.touch (h : SweepLaw opts slots now sweep) (instanceId : String) :
    SweepLaw opts (slots.touch instanceId now) now sweep := by
  refine ⟨h.past, h.position.trans (by simp [RegistrySlots.touch]), fun i hi other hother => ?_,
    h.evicted⟩
  obtain ⟨old, hold, rfl⟩ := get_touch_eq_some hother
  split
  · exact not_stale_of_le h.past
  · exact h.passed i hi old hold

theorem SweepLaw.begin (slots : RegistrySlots) (now : ℤ) : SweepLaw opts slots now ⟨now, 0, []⟩ :=
  ⟨le_rfl, Nat.zero_le _, fun _ hi => absurd hi (Nat.not_lt_zero _), fun _ h => nomatch h⟩

/-- A sweep goes on to the next stale entry, or returns and leaves none. -/
theorem continueSweep_cases (h : SweepLaw opts s.slots s.now sweep) :
    (s.continueSweep opts sweep = { s with sweeps := s.sweeps ++ [sweep] } ∧
      ∀ entry ∈ s.slots.live, opts.stale sweep.now entry = false) ∨
    ∃ entry sweep', s.continueSweep opts sweep =
        { s with slots := s.slots.delete entry.instanceId }.emit .stale entry (.sweep sweep') ∧
      entry ∈ s.slots.live ∧ entry ∈ sweep'.evicted ∧ sweep'.now = sweep.now ∧
      SweepLaw opts (s.slots.delete entry.instanceId) s.now sweep' := by
  rw [RegistryState.continueSweep]
  cases hfind : (s.slots.drop sweep.position).findIdx?
      fun slot => slot.any (opts.stale sweep.now) with
  | none =>
      refine .inl ⟨rfl, fun entry hentry => ?_⟩
      obtain ⟨i, hi⟩ := List.mem_iff_getElem?.mp (mem_live_iff.mp hentry)
      rcases Nat.lt_or_ge i sweep.position with hlt | hge
      · exact h.passed i hlt entry hi
      · have hmem : some entry ∈ s.slots.drop sweep.position := by
          refine List.mem_iff_getElem?.mpr ⟨i - sweep.position, ?_⟩
          rw [List.getElem?_drop, Nat.add_sub_cancel' hge, hi]
        exact List.findIdx?_eq_none_iff.mp hfind _ hmem
  | some i =>
      obtain ⟨hi, hstale, hbefore⟩ := List.findIdx?_eq_some_iff_getElem.mp hfind
      rw [List.getElem_drop] at hstale
      obtain ⟨entry, hentry, hstale⟩ := (Option.any_eq_true _ _).mp hstale
      have hi' : sweep.position + i < s.slots.length := by
        rw [List.length_drop] at hi
        omega
      have hget : s.slots[sweep.position + i]? = some (some entry) := by
        rw [List.getElem?_eq_getElem hi', hentry]
      refine .inr ⟨entry, ⟨sweep.now, sweep.position + i + 1, sweep.evicted ++ [entry]⟩,
        by simp only [hget, Option.join_some],
        mem_live_iff.mpr (List.mem_iff_getElem?.mpr ⟨_, hget⟩),
        List.mem_append_right _ (List.mem_singleton.mpr rfl), rfl, h.past, ?_, fun j hj other hother => ?_, fun other hother => ?_⟩
      · simpa [RegistrySlots.delete] using hi'
      · obtain ⟨hother, hne⟩ := get_delete_eq_some hother
        rcases Nat.lt_or_ge j sweep.position with hlt | hge
        · exact h.passed j hlt other hother
        · -- between the position and the stale entry, which is gone, the search has looked
          have hji : j ≠ sweep.position + i := by
            rintro rfl
            rw [hget] at hother
            exact hne (congrArg AgentRegistryEntry.instanceId
              (Option.some.inj (Option.some.inj hother)).symm)
          have hlt : j < sweep.position + i + 1 := hj
          have hj' := hbefore (j - sweep.position) (by omega)
          rw [List.getElem_drop] at hj'
          have hother' : s.slots[sweep.position + (j - sweep.position)]? = some (some other) := by
            rw [Nat.add_sub_cancel' hge, hother]
          rw [(List.getElem?_eq_some_iff.mp hother').2] at hj'
          exact Bool.eq_false_of_not_eq_true hj'
      · rcases List.mem_append.mp hother with hold | hnew
        · exact h.evicted other hold
        · rw [List.mem_singleton.mp hnew]
          exact hstale

/-! ## Events -/

/-- The events alternate and tell the ids that are registered. -/
def Told (events : List RegistryEvent) (ids : List String) : Prop :=
  ∀ instanceId, Alternates (reasonsOf instanceId events) ∧
    ((reasonsOf instanceId events).head? = some .register ↔ instanceId ∈ ids)

variable {events : List RegistryEvent} {ids ids' : List String} {reason : RegistryReason}

theorem reasonsOf_cons (event : RegistryEvent) (events : List RegistryEvent) (instanceId : String) :
    reasonsOf instanceId (event :: events) =
      if event.entry.instanceId = instanceId then event.reason :: reasonsOf instanceId events
      else reasonsOf instanceId events := by
  by_cases hid : event.entry.instanceId = instanceId <;> simp [reasonsOf, hid]

theorem Told.register (h : Told events ids) (hentry : entry.instanceId ∉ ids) :
    Told (⟨.register, entry⟩ :: events) (ids ++ [entry.instanceId]) := by
  intro other
  rw [reasonsOf_cons, List.mem_append, List.mem_singleton]
  split_ifs with hother
  · subst hother
    exact ⟨⟨fun hhead => hentry ((h _).2.mp hhead), (h _).1⟩, fun _ => .inr rfl, fun _ => rfl⟩
  · refine ⟨(h other).1, (h other).2.trans ⟨.inl, ?_⟩⟩
    rintro (hmem | heq)
    · exact hmem
    · exact absurd heq.symm hother

theorem Told.remove (h : Told events ids) (hreason : reason ≠ .register)
    (hentry : entry.instanceId ∈ ids)
    (hids : ∀ other, other ∈ ids' ↔ other ∈ ids ∧ other ≠ entry.instanceId) :
    Told (⟨reason, entry⟩ :: events) ids' := by
  intro other
  rw [reasonsOf_cons, hids]
  split_ifs with hother
  · subst hother
    have hlast := (h entry.instanceId).2.mpr hentry
    cases reason with
    | register => exact absurd rfl hreason
    | unregister | stale =>
        exact ⟨⟨hlast, (h _).1⟩, fun hhead => (nomatch hhead), fun hne => (hne.2 rfl).elim⟩
  · exact ⟨(h other).1, (h other).2.trans ⟨fun hmem => ⟨hmem, Ne.symm hother⟩, And.left⟩⟩

/-! ## When instances were heard of -/

/-- Every entry has the time of the last call by which its instance was heard of. -/
def Heard (slots : RegistrySlots) (calls : List RegistryCall) : Prop :=
  ∀ entry ∈ slots.live, lastHeard entry.instanceId calls = some entry.lastHeartbeatAt

variable {calls : List RegistryCall}

theorem lastHeard_cons (call : RegistryCall) (calls : List RegistryCall) (instanceId : String) :
    lastHeard instanceId (call :: calls) =
      if call.instanceId = instanceId then some call.time else lastHeard instanceId calls := by
  by_cases hid : call.instanceId = instanceId <;> simp [lastHeard, hid]

theorem Heard.mono (h : Heard slots calls) {slots' : RegistrySlots}
    (hlive : ∀ entry ∈ slots'.live, entry ∈ slots.live) : Heard slots' calls :=
  fun entry hentry => h entry (hlive entry hentry)

/-- A call for an instance that is not registered. -/
theorem Heard.skip (h : Heard slots calls) (hid : instanceId ∉ slots.ids) (now : ℤ) :
    Heard slots (⟨instanceId, now⟩ :: calls) := by
  intro entry hentry
  have hne : instanceId ≠ entry.instanceId := by
    rintro rfl
    exact hid (List.mem_map_of_mem hentry)
  rw [lastHeard_cons, if_neg hne]
  exact h entry hentry

theorem Heard.touch (h : Heard slots calls) (instanceId : String) (now : ℤ) :
    Heard (slots.touch instanceId now) (⟨instanceId, now⟩ :: calls) := by
  intro entry hentry
  rw [live_touch] at hentry
  obtain ⟨old, hold, rfl⟩ := List.mem_map.mp hentry
  rw [lastHeard_cons]
  by_cases hid : old.instanceId = instanceId
  · rw [if_pos hid, if_pos hid.symm]
  · rw [if_neg hid, if_neg (Ne.symm hid)]
    exact h old hold

theorem Heard.append (h : Heard slots calls) {input : RegisterInput}
    (hid : input.instanceId ∉ slots.ids) (now : ℤ) :
    Heard (slots ++ [some (AgentRegistry.newEntry input now)])
      (⟨input.instanceId, now⟩ :: calls) := by
  intro entry hentry
  rw [live_append] at hentry
  rcases List.mem_append.mp hentry with hold | hnew
  · exact h.skip hid now entry hold
  · rw [List.mem_singleton.mp hnew, lastHeard_cons]
    exact if_pos rfl

/-! ## Steps -/

/-- What every step keeps. -/
structure RegistryInv (opts : RegistryOptions) (s : RegistryState) : Prop where
  bounded : s.slots.live.length ≤ ⌈opts.maxEntries⌉₊
  told : Told s.events s.slots.ids
  heard : Heard s.slots s.calls
  waiting : ∀ sweep, .sweep sweep ∈ s.stack → SweepLaw opts s.slots s.now sweep

section Inv

variable (h : RegistryInv opts s)

include h

theorem RegistryInv.wait (hnow : s.now ≤ now) :
    RegistryInv opts { s with now := now } :=
  ⟨h.bounded, h.told, h.heard, fun sweep hsweep => (h.waiting sweep hsweep).wait hnow⟩

/-- A call for an instance that is not registered. -/
theorem RegistryInv.skip (hid : instanceId ∉ s.slots.ids) (now : ℤ) :
    RegistryInv opts (s.hear ⟨instanceId, now⟩) :=
  ⟨h.bounded, h.told, h.heard.skip hid now, h.waiting⟩

theorem RegistryInv.touch (instanceId : String) (hnow : s.now ≤ now) :
    RegistryInv opts
      ({ s with slots := s.slots.touch instanceId now, now := now }.hear ⟨instanceId, now⟩) := by
  refine ⟨?_, ?_, h.heard.touch instanceId now,
    fun sweep hsweep => ((h.waiting sweep hsweep).wait hnow).touch instanceId⟩
  · rw [RegistryState.hear, live_touch, List.length_map]
    exact h.bounded
  · rw [RegistryState.hear, ids_touch]
    exact h.told

theorem RegistryInv.register (input : RegisterInput) (hnow : s.now ≤ now) :
    RegistryInv opts ((s.register opts input now).hear ⟨input.instanceId, now⟩) := by
  rw [RegistryState.register]
  cases hfind : s.slots.find input.instanceId with
  | some entry => exact h.touch _ hnow
  | none =>
      have hid := not_mem_ids_of_find hfind
      dsimp only
      split_ifs with hfull
      · exact (h.wait hnow).skip hid now
      · refine ⟨?_, ?_, h.heard.append hid now, fun sweep hsweep => ?_⟩
        · -- the number of entries is whole, so one more is at most the ceiling
          rw [RegistryState.hear, RegistryState.emit, live_append, List.length_append]
          exact Nat.lt_ceil.mpr (not_le.mp hfull)
        · rw [RegistryState.hear, RegistryState.emit, ids, live_append, List.map_append]
          exact h.told.register hid
        · rcases List.mem_cons.mp hsweep with heq | hold
          · cases heq
          · exact ((h.waiting sweep hold).wait hnow).append _

theorem RegistryInv.heartbeat (instanceId : String) (hnow : s.now ≤ now) :
    RegistryInv opts ((s.heartbeat instanceId now).hear ⟨instanceId, now⟩) := by
  rw [RegistryState.heartbeat]
  cases hfind : s.slots.find instanceId with
  | none => exact h.skip (not_mem_ids_of_find hfind) now
  | some entry => exact h.touch instanceId hnow

/-- An entry is removed and its event is with the listeners. -/
theorem RegistryInv.remove (hentry : entry ∈ s.slots.live)
    (hreason : reason ≠ .register) {frame : RegistryFrame}
    (hframe : ∀ sweep, frame = .sweep sweep →
      SweepLaw opts (s.slots.delete entry.instanceId) s.now sweep) :
    RegistryInv opts
      ({ s with slots := s.slots.delete entry.instanceId }.emit reason entry frame) := by
  refine ⟨?_, ?_, h.heard.mono fun other hother => ?_, fun sweep hsweep => ?_⟩
  · rw [RegistryState.emit, live_delete]
    exact (List.length_filter_le _ _).trans h.bounded
  · exact h.told.remove hreason (List.mem_map_of_mem hentry) fun _ => mem_ids_delete
  · rw [RegistryState.emit, live_delete] at hother
    exact (List.mem_filter.mp hother).1
  · rcases List.mem_cons.mp hsweep with heq | hold
    · exact hframe sweep heq.symm
    · exact (h.waiting sweep hold).delete _

theorem RegistryInv.unregister (instanceId : String) :
    RegistryInv opts (s.unregister instanceId) := by
  rw [RegistryState.unregister]
  cases hfind : s.slots.find instanceId with
  | none => exact h
  | some entry =>
      obtain ⟨hentry, rfl⟩ := mem_live_of_find hfind
      refine h.remove hentry ?_ fun _ hframe => ?_
      · exact RegistryReason.noConfusion
      · cases hframe

theorem RegistryInv.continueSweep
    (hsweep : SweepLaw opts s.slots s.now sweep) :
    RegistryInv opts (s.continueSweep opts sweep) := by
  rcases continueSweep_cases hsweep with ⟨heq, -⟩ | ⟨entry, sweep', heq, hentry, -, -, hsweep'⟩
  · rw [heq]
    exact ⟨h.bounded, h.told, h.heard, h.waiting⟩
  · rw [heq]
    refine h.remove hentry ?_ fun other hother => ?_
    · exact RegistryReason.noConfusion
    · injection hother with hother
      exact hother ▸ hsweep'

theorem RegistryInv.back {frame : RegistryFrame}
    {rest : List RegistryFrame} (hstack : s.stack = frame :: rest) :
    RegistryInv opts { s with stack := rest } :=
  ⟨h.bounded, h.told, h.heard, fun sweep hsweep =>
    h.waiting sweep (hstack ▸ List.mem_cons_of_mem frame hsweep)⟩

end Inv

variable {start : ℤ} {action : RegistryAction}

theorem RegistryInv.step (h : RegistryInv opts s)
    (hstep : (registryMachine opts start).step s action = some s') : RegistryInv opts s' := by
  cases action with
  | register input now =>
      obtain ⟨hnow, hstep⟩ := Option.ite_none_right_eq_some.mp hstep
      rw [← Option.some.inj hstep]
      exact h.register input hnow
  | heartbeat instanceId now =>
      obtain ⟨hnow, hstep⟩ := Option.ite_none_right_eq_some.mp hstep
      rw [← Option.some.inj hstep]
      exact h.heartbeat instanceId hnow
  | unregister instanceId =>
      rw [← Option.some.inj hstep]
      exact h.unregister instanceId
  | sweep now =>
      obtain ⟨hnow, hstep⟩ := Option.ite_none_right_eq_some.mp hstep
      rw [← Option.some.inj hstep]
      exact (h.wait hnow).continueSweep (.begin _ _)
  | back =>
      simp only [registryMachine] at hstep
      split at hstep
      · cases hstep
      case h_2 hstack | h_3 hstack =>
        rw [← Option.some.inj hstep]
        exact h.back hstack
      case h_4 sweep rest hstack =>
        rw [← Option.some.inj hstep]
        have hwaiting := h.waiting sweep (hstack ▸ List.mem_cons_self)
        exact (h.back hstack).continueSweep hwaiting

theorem RegistryInv.of_reachable (h : (registryMachine opts start).Reachable s) :
    RegistryInv opts s := by
  refine Machine.Reachable.invariant (M := registryMachine opts start) ?_
    (fun s a s' hs hstep => hs.step hstep) h
  exact ⟨Nat.zero_le _, fun _ => ⟨trivial, by simp [registryMachine, reasonsOf, ids, live]⟩,
    fun _ h => (nomatch h), fun _ h => (nomatch h)⟩

/-! ## What a step does to the sweeps -/

/-- A step without a sweep. -/
structure Quiet (s s' : RegistryState) : Prop where
  sweeps : s'.sweeps = s.sweeps
  waiting : ∀ sweep, .sweep sweep ∈ s'.stack → .sweep sweep ∈ s.stack
  events : ∀ entry, s'.events ≠ ⟨.stale, entry⟩ :: s.events

/-- A step that leaves the stack and the events as they are. -/
theorem Quiet.of_eq (hsweeps : s'.sweeps = s.sweeps) (hevents : s'.events = s.events)
    (hwaiting : ∀ sweep, .sweep sweep ∈ s'.stack → .sweep sweep ∈ s.stack) : Quiet s s' :=
  ⟨hsweeps, hwaiting, fun _ h => List.cons_ne_self _ _ (h.symm.trans hevents)⟩

/-- A step whose event is not one of a sweep. -/
theorem Quiet.emit {frame : RegistryFrame} (h : s'.stack = s.stack) (hsweeps : s'.sweeps = s.sweeps)
    (hreason : reason ≠ .stale) (hframe : ∀ sweep, frame ≠ .sweep sweep) :
    Quiet s (s'.emit reason entry frame) := by
  refine ⟨hsweeps, fun sweep hsweep => ?_, fun other hother => ?_⟩
  · rcases List.mem_cons.mp hsweep with heq | hold
    · exact absurd heq.symm (hframe sweep)
    · exact h ▸ hold
  · exact hreason (congrArg RegistryEvent.reason (List.cons.inj hother).1)

theorem Quiet.hear (h : Quiet s s') (call : RegistryCall) : Quiet s (s'.hear call) :=
  ⟨h.sweeps, h.waiting, h.events⟩

theorem quiet_register (input : RegisterInput) (now : ℤ) :
    Quiet s (s.register opts input now) := by
  rw [RegistryState.register]
  split
  · exact .of_eq rfl rfl fun _ => id
  · dsimp only
    split_ifs
    · exact .of_eq rfl rfl fun _ => id
    · exact .emit rfl rfl RegistryReason.noConfusion fun _ => RegistryFrame.noConfusion

theorem quiet_heartbeat (instanceId : String) (now : ℤ) :
    Quiet s (s.heartbeat instanceId now) := by
  rw [RegistryState.heartbeat]
  split <;> exact .of_eq rfl rfl fun _ => id

theorem quiet_unregister (instanceId : String) : Quiet s (s.unregister instanceId) := by
  rw [RegistryState.unregister]
  split
  · exact .of_eq rfl rfl fun _ => id
  · exact .emit rfl rfl RegistryReason.noConfusion fun _ => RegistryFrame.noConfusion

/-- A state in which a sweep of a step goes on. -/
structure GoesOn (opts : RegistryOptions) (s : RegistryState) (action : RegistryAction)
    (s₀ : RegistryState) (sweep : RegistrySweep) : Prop where
  law : SweepLaw opts s₀.slots s₀.now sweep
  inv : RegistryInv opts s₀
  events : s₀.events = s.events
  calls : s₀.calls = s.calls
  sweeps : s₀.sweeps = s.sweeps
  waiting : ∀ sweep, .sweep sweep ∈ s₀.stack → .sweep sweep ∈ s.stack
  cause : action = .sweep sweep.now ∨ s.stack.head? = some (.sweep sweep)

/-- A step has nothing to do with sweeps, or one goes on. -/
theorem quiet_or_goesOn (h : RegistryInv opts s)
    (hstep : (registryMachine opts start).step s action = some s') :
    Quiet s s' ∨ ∃ s₀ sweep, GoesOn opts s action s₀ sweep ∧ s' = s₀.continueSweep opts sweep := by
  cases action with
  | register input now =>
      obtain ⟨-, hstep⟩ := Option.ite_none_right_eq_some.mp hstep
      exact .inl (Option.some.inj hstep ▸ (quiet_register input now).hear _)
  | heartbeat instanceId now =>
      obtain ⟨-, hstep⟩ := Option.ite_none_right_eq_some.mp hstep
      exact .inl (Option.some.inj hstep ▸ (quiet_heartbeat instanceId now).hear _)
  | unregister instanceId => exact .inl (Option.some.inj hstep ▸ quiet_unregister instanceId)
  | sweep now =>
      obtain ⟨hnow, hstep⟩ := Option.ite_none_right_eq_some.mp hstep
      refine .inr ⟨{ s with now := now }, ⟨now, 0, []⟩, ?_, (Option.some.inj hstep).symm⟩
      exact ⟨.begin _ _, h.wait hnow, rfl, rfl, rfl, fun _ => id, .inl rfl⟩
  | back =>
      simp only [registryMachine] at hstep
      split at hstep
      · cases hstep
      case h_2 hstack | h_3 hstack =>
        refine .inl (Option.some.inj hstep ▸ .of_eq rfl rfl fun sweep hsweep => ?_)
        exact hstack ▸ List.mem_cons_of_mem _ hsweep
      case h_4 sweep rest hstack =>
        refine .inr ⟨{ s with stack := rest }, sweep, ?_, (Option.some.inj hstep).symm⟩
        exact ⟨h.waiting sweep (hstack ▸ List.mem_cons_self), h.back hstack, rfl, rfl, rfl,
          fun _ hother => hstack ▸ List.mem_cons_of_mem _ hother, .inr (by rw [hstack]; rfl)⟩

theorem GoesOn.of_cause {s₀ : RegistryState} {other : RegistrySweep}
    (h : GoesOn opts s action s₀ sweep) (hother : other.now = sweep.now) :
    action = .sweep other.now ∨
      ∃ earlier, s.stack.head? = some (.sweep earlier) ∧ earlier.now = other.now := by
  rcases h.cause with hbegin | hback
  · exact .inl (hother ▸ hbegin)
  · exact .inr ⟨sweep, hback, hother.symm⟩

/-- A sweep goes by the clock of its own call. -/
theorem reading_of_step (h : RegistryInv opts s)
    (hstep : (registryMachine opts start).step s action = some s') (hsweep : s'.HasSweep sweep) :
    s.HasSweep sweep ∨ action = .sweep sweep.now ∨
      ∃ earlier, s.stack.head? = some (.sweep earlier) ∧ earlier.now = sweep.now := by
  rcases quiet_or_goesOn h hstep with hquiet | ⟨s₀, going, hgoes, rfl⟩
  · rw [RegistryState.HasSweep, hquiet.sweeps] at hsweep
    exact .inl (hsweep.imp_left (hquiet.waiting sweep))
  · rcases continueSweep_cases hgoes.law with ⟨heq, -⟩ | ⟨entry, next, heq, -, -, hnext, -⟩
    · rw [heq] at hsweep
      rcases hsweep with hwaits | hreturned
      · exact .inl (.inl (hgoes.waiting sweep hwaits))
      · rcases List.mem_append.mp hreturned with hold | hnew
        · exact .inl (.inr (hgoes.sweeps ▸ hold))
        · rw [List.mem_singleton.mp hnew]
          exact .inr (hgoes.of_cause rfl)
    · rw [heq] at hsweep
      rcases hsweep with hwaits | hreturned
      · rcases List.mem_cons.mp hwaits with hnew | hold
        · exact .inr (hgoes.of_cause (RegistryFrame.sweep.inj hnew ▸ hnext))
        · exact .inl (.inl (hgoes.waiting sweep hold))
      · exact .inl (.inr (hgoes.sweeps ▸ hreturned))

/-- What a sweep evicts has not been heard of for too long. -/
theorem tooOld_of_evicts (h : RegistryInv opts s)
    (hstep : (registryMachine opts start).step s action = some s')
    (hevents : s'.events = ⟨.stale, entry⟩ :: s.events) :
    ∃ sweep time, s'.stack.head? = some (.sweep sweep) ∧ entry ∈ sweep.evicted ∧
      lastHeard entry.instanceId s.calls = some time ∧ opts.tooOld sweep.now time = true := by
  rcases quiet_or_goesOn h hstep with hquiet | ⟨s₀, going, hgoes, rfl⟩
  · exact absurd hevents (hquiet.events entry)
  · rcases continueSweep_cases hgoes.law with
      ⟨heq, -⟩ | ⟨found, next, heq, hfound, hevicted, -, hnext⟩
    · rw [heq] at hevents
      exact absurd (hevents.symm.trans hgoes.events) (List.cons_ne_self _ _)
    · rw [heq] at hevents ⊢
      obtain rfl := congrArg RegistryEvent.entry (List.cons.inj hevents).1
      refine ⟨next, found.lastHeartbeatAt, rfl, hevicted, ?_, hnext.evicted found hevicted⟩
      exact hgoes.calls ▸ hgoes.inv.heard found hfound

/-- A sweep that returns leaves nothing that has not been heard of for too long. -/
theorem not_tooOld_of_return (h : RegistryInv opts s)
    (hstep : (registryMachine opts start).step s action = some s')
    (hreturn : s'.sweeps = s.sweeps ++ [sweep]) (hentry : entry ∈ s'.slots.live) {time : ℤ}
    (htime : lastHeard entry.instanceId s'.calls = some time) :
    opts.tooOld sweep.now time = false := by
  obtain rfl := Option.some.inj (((h.step hstep).heard entry hentry).symm.trans htime)
  rcases quiet_or_goesOn h hstep with hquiet | ⟨s₀, going, hgoes, rfl⟩
  · exact absurd (hreturn.symm.trans hquiet.sweeps) (by simp)
  · rcases continueSweep_cases hgoes.law with ⟨heq, hnone⟩ | ⟨found, next, heq, -⟩
    · rw [heq] at hreturn hentry
      have hsame : s₀.sweeps ++ [going] = s₀.sweeps ++ [sweep] := hreturn.trans (by rw [hgoes.sweeps])
      rw [← List.singleton_injective (List.append_cancel_left hsame)]
      exact hnone entry hentry
    · rw [heq] at hreturn
      exact absurd (hreturn.symm.trans hgoes.sweeps) (by simp)

/-- A full registry refuses a new id and stays as it is. -/
theorem register_refused (input : RegisterInput) (now : ℤ) (hid : input.instanceId ∉ s.slots.ids)
    (hfull : opts.maxEntries ≤ s.slots.live.length) :
    s.register opts input now = { s with now := now } := by
  rw [RegistryState.register]
  cases hfind : s.slots.find input.instanceId with
  | some entry => exact absurd (mem_ids_of_find hfind) hid
  | none => exact if_pos hfull

theorem registryKept_of_reachable (h : (registryMachine opts start).Reachable s) :
    RegistryKept opts s where
  refused _ input now s' hstep hid hfull := by
    obtain ⟨-, hstep⟩ := Option.ite_none_right_eq_some.mp hstep
    rw [← Option.some.inj hstep, register_refused input now hid hfull]
    rfl
  heard := (RegistryInv.of_reachable h).heard
  reading _ _ _ _ := reading_of_step (RegistryInv.of_reachable h)
  evicts _ _ _ _ := tooOld_of_evicts (RegistryInv.of_reachable h)
  complete _ _ _ _ hstep hreturn _ hentry _ :=
    not_tooOld_of_return (RegistryInv.of_reachable h) hstep hreturn hentry
  events := (RegistryInv.of_reachable h).told

/-! ## The number of entries -/

/-- The instances of a crowd. -/
def crowdId (i : ℕ) : String := String.ofList (List.replicate i 'a')

def crowdInput (i : ℕ) : RegisterInput := ⟨crowdId i, "codex", "", none, none⟩

theorem crowdId_injective : Function.Injective crowdId := by
  intro i j h
  have hlength := congrArg (fun text => text.toList.length) h
  simpa [crowdId] using hlength

/-- Below the limit one instance after the other is registered. -/
theorem exists_crowd (opts : RegistryOptions) (start : ℤ) {n : ℕ} (hn : n ≤ ⌈opts.maxEntries⌉₊) :
    ∃ s, (registryMachine opts start).Reachable s ∧ s.now = start ∧ s.stack = [] ∧
      s.slots.ids = (List.range n).map crowdId := by
  induction n with
  | zero => exact ⟨_, .init, rfl, rfl, rfl⟩
  | succ n ih =>
      obtain ⟨s, hs, hnow, hstack, hids⟩ := ih (Nat.le_of_succ_le hn)
      have hnew : crowdId n ∉ s.slots.ids := by
        rw [hids, List.mem_map]
        rintro ⟨i, hi, heq⟩
        exact absurd (crowdId_injective heq) (List.mem_range.mp hi).ne
      -- n entries are below the limit
      have hroom : ¬ opts.maxEntries ≤ s.slots.live.length := by
        have hlength : s.slots.live.length = n := by
          simpa [RegistrySlots.ids] using congrArg List.length hids
        rw [hlength]
        exact not_le.mpr (Nat.lt_ceil.mp hn)
      have hregister : s.register opts (crowdInput n) start =
          { s with
            slots := s.slots ++ [some (AgentRegistry.newEntry (crowdInput n) start)]
            now := start }.emit .register (AgentRegistry.newEntry (crowdInput n) start)
              (.register (AgentRegistry.newEntry (crowdInput n) start)) := by
        have hfind : s.slots.find (crowdInput n).instanceId = none := by
          refine Option.eq_none_iff_forall_not_mem.mpr fun entry hentry => ?_
          exact hnew (mem_ids_of_find hentry)
        rw [RegistryState.register, hfind]
        exact if_neg hroom
      have hstep : (registryMachine opts start).step s (.register (crowdInput n) start) =
          some ((s.register opts (crowdInput n) start).hear ⟨crowdId n, start⟩) := if_pos hnow.le
      rw [hregister] at hstep
      refine ⟨_, (hs.step trivial hstep).step (a := .back) trivial rfl, rfl, hstack, ?_⟩
      rw [List.range_succ, List.map_append, ← hids]
      exact congrArg (List.map _) (live_append ..) |>.trans (List.map_append ..)

/-- Whatever the calls and wherever the listeners call back, the registry keeps its law, the limit
of its entries exactly if that is a whole number. -/
theorem registry_law (opts : RegistryOptions) (start : ℤ) :
    (∀ s, (registryMachine opts start).Reachable s → RegistryKept opts s) ∧
      ((∀ s, (registryMachine opts start).Reachable s → RegistryLaw opts s) ↔
        ∃ n : ℕ, opts.maxEntries = n) := by
  refine ⟨fun s => registryKept_of_reachable, fun h => ?_, ?_⟩
  · obtain ⟨s, hs, -, -, hids⟩ := exists_crowd opts start le_rfl
    have hlength : s.slots.live.length = ⌈opts.maxEntries⌉₊ := by
      simpa [RegistrySlots.ids] using congrArg List.length hids
    have hbounded := (h s hs).bounded
    rw [hlength] at hbounded
    exact ⟨_, (Nat.le_ceil _).antisymm hbounded⟩
  · rintro ⟨n, hn⟩ s hs
    refine ⟨registryKept_of_reachable hs, ?_⟩
    have hbounded := (RegistryInv.of_reachable hs).bounded
    rw [hn, Nat.ceil_natCast] at hbounded
    rw [hn]
    exact_mod_cast hbounded

/-- A listener registers the id again while its stale entry is evicted. -/
theorem registry_law_again :
    ∃ opts s, RegistryLaw opts s ∧ s.slots.ids = ["a"] ∧
      s.sweeps.map (fun sweep => sweep.evicted.map AgentRegistryEntry.instanceId) = [["a", "b"]] ∧
      (s.events.map RegistryEvent.reason).reverse =
        [.register, .register, .stale, .register, .stale] := by
  let opts : RegistryOptions := ⟨2, .ofInt 30, by norm_num, by decide⟩
  let input (instanceId : String) : RegisterInput := ⟨instanceId, "codex", "", none, none⟩
  let actions : List RegistryAction := [.register (input "a") 0, .back, .register (input "b") 5,
    .back, .sweep 40, .register (input "a") 40, .back, .back, .back]
  have hrun : (((registryMachine opts 0).runFrom (registryMachine opts 0).init actions).map
      fun s => (s.slots.ids,
        s.sweeps.map (fun sweep => sweep.evicted.map AgentRegistryEntry.instanceId),
        (s.events.map RegistryEvent.reason).reverse)) =
      some (["a"], [["a", "b"]], [.register, .register, .stale, .register, .stale]) := by
    decide +kernel
  obtain ⟨s, hs, h⟩ := Option.map_eq_some_iff.mp hrun
  exact ⟨opts, s, (registry_law opts 0).2.mpr ⟨2, rfl⟩ s (Machine.reachable_of_runFrom hs),
    congrArg Prod.fst h, congrArg (fun p => p.2.1) h, congrArg (fun p => p.2.2) h⟩

/-- A registry with the limit 1.5 takes a second entry. -/
theorem registry_overfull :
    ∃ (opts : RegistryOptions) (s : RegistryState), opts.maxEntries = 3 / 2 ∧
      (registryMachine opts 0).Reachable s ∧ s.slots.live.length = 2 ∧ ¬ RegistryLaw opts s := by
  let opts : RegistryOptions := ⟨3 / 2, .ofInt 15000, by norm_num, by decide⟩
  have hrun : (((registryMachine opts 0).runFrom (registryMachine opts 0).init
      [.register (crowdInput 1) 0, .back, .register (crowdInput 2) 0, .back]).map
        fun s => s.slots.live.length) = some 2 := by
    decide +kernel
  obtain ⟨s, hs, hlength⟩ := Option.map_eq_some_iff.mp hrun
  refine ⟨opts, s, rfl, Machine.reachable_of_runFrom hs, hlength, fun h => ?_⟩
  have hbounded : (s.slots.live.length : ℚ) ≤ 3 / 2 := h.bounded
  rw [hlength] at hbounded
  norm_num at hbounded

end Laws

end ThinkLocal.Inbox
