import ThinkLocal.Foundation.InsertionMap
import ThinkLocal.Foundation.LastMatch
import ThinkLocal.Foundation.Machine
import ThinkLocal.Js.Date
import ThinkLocal.Js.Decimal

/-!
# The partition detector

`PartitionDetector` keeps the registered, the connected and the lost peers in three sets and
computes its state from their sizes.  Every event of a peer goes to the sets, whether or not the peer
is registered.

* The meaning: `registered` and `connected` are read off the history of the calls.
* `state_follows_peers`: while the events are only those of registered peers, the connected set lies
  inside the registered one, and the state that is computed from the sizes is the one that the sets
  themselves call for.
-/

namespace ThinkLocal.Mesh.Partition

open Foundation ThinkLocal.Js

/-! ## The detector -/

inductive PartitionState
  | healthy
  | degraded
  | partitioned
  | isolated
deriving DecidableEq

structure PartitionDetector where
  expectedPeers : InsertionSet String
  currentPeers : InsertionSet String
  lostPeers : InsertionSet String
  state : PartitionState
  partitionDetectedAt : Option (List Char)
  reconnectedAt : Option (List Char)

namespace PartitionDetector

def new : PartitionDetector where
  expectedPeers := .empty
  currentPeers := .empty
  lostPeers := .empty
  state := .healthy
  partitionDetectedAt := none
  reconnectedAt := none

/-- `(expected - connected) / expected`, a quotient of doubles. -/
def lostRatio (expected connected : Nat) : Number :=
  roundDouble (((expected : ℚ) - connected) / expected)

/-- The state for a number of registered and a number of connected peers. -/
def stateOf (partitionThreshold : Number) (expected connected : Nat) : PartitionState :=
  if expected = 0 ∨ connected = expected then .healthy
  else if connected = 0 then .isolated
  else if partitionThreshold.le (lostRatio expected connected) then .partitioned
  else .degraded

def evaluateState (partitionThreshold : Number) (now : Int) (d : PartitionDetector) :
    PartitionDetector :=
  let state := stateOf partitionThreshold d.expectedPeers.size d.currentPeers.size
  { d with
    state := state
    partitionDetectedAt :=
      if d.state ≠ state ∧ (state = .partitioned ∨ state = .isolated) then toISOString now
      else d.partitionDetectedAt }

def addKnownPeer (partitionThreshold : Number) (now : Int) (agentId : String)
    (d : PartitionDetector) : PartitionDetector :=
  evaluateState partitionThreshold now
    { d with
      expectedPeers := d.expectedPeers.add agentId
      lostPeers := d.lostPeers.delete agentId }

def peerLost (partitionThreshold : Number) (now : Int) (agentId : String)
    (d : PartitionDetector) : PartitionDetector :=
  evaluateState partitionThreshold now
    { d with
      currentPeers := d.currentPeers.delete agentId
      lostPeers := d.lostPeers.add agentId }

def peerReconnected (partitionThreshold : Number) (now : Int) (agentId : String)
    (d : PartitionDetector) : PartitionDetector :=
  evaluateState partitionThreshold now
    { d with
      currentPeers := d.currentPeers.add agentId
      lostPeers := d.lostPeers.delete agentId
      reconnectedAt :=
        if d.state = .partitioned ∨ d.state = .isolated then toISOString now
        else d.reconnectedAt }

end PartitionDetector

/-! ## Runs -/

inductive Call
  | addKnownPeer (agentId : String)
  | peerLost (agentId : String)
  | peerReconnected (agentId : String)

/-- A detector with the calls that it has seen, the newest last. -/
structure Watch where
  detector : PartitionDetector
  calls : List Call

def apply (partitionThreshold : Number) (now : Int) (d : PartitionDetector) :
    Call → PartitionDetector
  | .addKnownPeer agentId => d.addKnownPeer partitionThreshold now agentId
  | .peerLost agentId => d.peerLost partitionThreshold now agentId
  | .peerReconnected agentId => d.peerReconnected partitionThreshold now agentId

/-- An action is a call and the clock reading at it. -/
def machine (partitionThreshold : Number) : Machine Watch (Call × Int) where
  init := ⟨.new, []⟩
  step w a := some ⟨apply partitionThreshold a.2 w.detector a.1, w.calls ++ [a.1]⟩

/-! ## What the state stands for -/

/-- The registered peers. -/
def registered (calls : List Call) : Finset String :=
  (calls.filterMap fun
    | .addKnownPeer agentId => some agentId
    | _ => none).toFinset

/-- Whether a call is a reconnect (`true`) or a loss (`false`) of the peer. -/
def event (agentId : String) : Call → Option Bool
  | .addKnownPeer _ => none
  | .peerLost id => if id = agentId then some false else none
  | .peerReconnected id => if id = agentId then some true else none

def latestEvent (calls : List Call) (agentId : String) : Option Bool :=
  lastValue (event agentId) calls

/-- The registered peers whose latest event is a reconnect. -/
def connected (calls : List Call) : Finset String :=
  (registered calls).filter fun agentId => latestEvent calls agentId = some true

/-- The state that two sets of peers call for, and which peers may be listed as lost. -/
structure Follows (partitionThreshold : Number) (E C : Finset String) (d : PartitionDetector) :
    Prop where
  healthy : d.state = .healthy ↔ E = ∅ ∨ C = E
  isolated : d.state = .isolated ↔ E ≠ ∅ ∧ C = ∅
  partitioned : d.state = .partitioned ↔ 0 < C.card ∧ C.card < E.card ∧
    partitionThreshold.le (PartitionDetector.lostRatio E.card C.card) = true
  degraded : d.state = .degraded ↔ ¬ (E = ∅ ∨ C = E) ∧ ¬ (E ≠ ∅ ∧ C = ∅) ∧
    ¬ (0 < C.card ∧ C.card < E.card ∧
      partitionThreshold.le (PartitionDetector.lostRatio E.card C.card) = true)
  lost : ∀ agentId ∈ d.lostPeers, agentId ∈ E ∧ agentId ∉ C

/-! ## The state from the sizes -/

section Sizes

variable {partitionThreshold : Number} {E C : Finset String} {d : PartitionDetector}

/-- Where the connected peers are registered, equal sizes are equal sets. -/
theorem card_eq_iff_of_subset (hsub : C ⊆ E) : C.card = E.card ↔ C = E := by
  constructor
  · intro hcard
    exact Finset.eq_of_subset_of_card_le hsub hcard.ge
  · rintro rfl
    rfl

theorem follows_of_stateOf (hsub : C ⊆ E)
    (hstate : d.state = PartitionDetector.stateOf partitionThreshold E.card C.card)
    (hlost : ∀ agentId ∈ d.lostPeers, agentId ∈ E ∧ agentId ∉ C) :
    Follows partitionThreshold E C d := by
  have hle : C.card ≤ E.card := Finset.card_le_card hsub
  simp only [PartitionDetector.stateOf, Finset.card_eq_zero, card_eq_iff_of_subset hsub] at hstate
  by_cases hhealthy : E = ∅ ∨ C = E
  · rw [if_pos hhealthy] at hstate
    -- an empty set of registered peers has no connected ones, so no other case overlaps
    have hiso : ¬ (E ≠ ∅ ∧ C = ∅) := by
      rintro ⟨hE, hC⟩
      rcases hhealthy with h | h
      · exact hE h
      · exact hE (h ▸ hC)
    have hpart : ¬ (0 < C.card ∧ C.card < E.card) := by
      rintro ⟨_, hlt⟩
      rcases hhealthy with rfl | rfl
      · simp at hlt
      · exact lt_irrefl _ hlt
    exact ⟨by simp [hstate, hhealthy], by simp [hstate, hiso],
      by simp only [hstate, reduceCtorEq, false_iff]; exact fun h => hpart ⟨h.1, h.2.1⟩,
      by simp only [hstate, reduceCtorEq, false_iff]; exact fun h => h.1 hhealthy, hlost⟩
  · rw [if_neg hhealthy] at hstate
    rw [not_or] at hhealthy
    have hlt : C.card < E.card :=
      lt_of_le_of_ne hle fun h => hhealthy.2 ((card_eq_iff_of_subset hsub).mp h)
    by_cases hC : C = ∅
    · rw [if_pos hC] at hstate
      exact ⟨by simp [hstate, hhealthy], by simp [hstate, hC, hhealthy.1], by simp [hstate, hC],
        by simp [hstate, hC, hhealthy.1], hlost⟩
    · rw [if_neg hC] at hstate
      have hpos : 0 < C.card := Finset.card_pos.mpr (Finset.nonempty_iff_ne_empty.mpr hC)
      split_ifs at hstate with hratio
      · exact ⟨by simp [hstate, hhealthy], by simp [hstate, hC], by simp [hstate, hpos, hlt, hratio],
          by simp [hstate, hpos, hlt, hratio], hlost⟩
      · exact ⟨by simp [hstate, hhealthy], by simp [hstate, hC], by simp [hstate, hratio],
          by simp [hstate, hhealthy, hC, hratio], hlost⟩

end Sizes

/-! ## Runs with the events of registered peers -/

/-- An event is one of a peer that is registered before it. -/
def OfRegistered (w : Watch) (a : Call × Int) : Prop :=
  match a.1 with
  | .addKnownPeer _ => True
  | .peerLost agentId | .peerReconnected agentId => agentId ∈ w.detector.expectedPeers

instance : ∀ w a, Decidable (OfRegistered w a)
  | _, (.addKnownPeer _, _) => .isTrue trivial
  | w, (.peerLost agentId, _) | w, (.peerReconnected agentId, _) =>
      inferInstanceAs (Decidable (agentId ∈ w.detector.expectedPeers))

/-- The sets of the detector are those of the history, and only registered peers had events. -/
structure Kept (partitionThreshold : Number) (w : Watch) : Prop where
  expected : ∀ id, id ∈ w.detector.expectedPeers ↔ id ∈ registered w.calls
  current : ∀ id, id ∈ w.detector.currentPeers ↔ latestEvent w.calls id = some true
  lost : ∀ id ∈ w.detector.lostPeers, latestEvent w.calls id = some false
  known : ∀ id, latestEvent w.calls id ≠ none → id ∈ registered w.calls
  state : w.detector.state = PartitionDetector.stateOf partitionThreshold
    w.detector.expectedPeers.size w.detector.currentPeers.size

theorem mem_registered_append {calls : List Call} {call : Call} {id : String} :
    id ∈ registered (calls ++ [call]) ↔ id ∈ registered calls ∨ call = .addKnownPeer id := by
  cases call <;> simp [registered, eq_comm, or_comm]

theorem latestEvent_append (calls : List Call) (call : Call) (id : String) :
    latestEvent (calls ++ [call]) id = (event id call).or (latestEvent calls id) := by
  unfold latestEvent
  rw [lastValue_append, lastValue_cons, lastValue_nil, Option.none_or]

theorem kept_init (partitionThreshold : Number) :
    Kept partitionThreshold (machine partitionThreshold).init where
  expected _ := by simp [machine, PartitionDetector.new, registered]
  current _ := by simp [machine, PartitionDetector.new, latestEvent]
  lost _ h := absurd h (InsertionSet.notMem_empty _)
  known _ h := absurd rfl h
  state := rfl

/-- Each call moves the sets as its event moves the history. -/
theorem Kept.step {partitionThreshold : Number} {w : Watch} (h : Kept partitionThreshold w)
    (a : Call × Int) (ha : OfRegistered w a) :
    Kept partitionThreshold ⟨apply partitionThreshold a.2 w.detector a.1, w.calls ++ [a.1]⟩ := by
  obtain ⟨call, now⟩ := a
  cases call with
  | addKnownPeer agentId =>
      -- a registration is no event, so the latest ones stay
      refine ⟨fun id => ?_, fun id => ?_, fun id hid => ?_, fun id hid => ?_, rfl⟩
      · rw [mem_registered_append, ← h.expected id, Call.addKnownPeer.injEq]
        exact InsertionSet.mem_add.trans (or_comm.trans (or_congr_right eq_comm))
      · rw [latestEvent_append]
        exact h.current id
      · rw [latestEvent_append]
        exact h.lost id (InsertionSet.mem_delete.mp hid).2
      · rw [latestEvent_append] at hid
        exact mem_registered_append.mpr (.inl (h.known id hid))
  | peerLost agentId =>
      -- the loss is the latest event of its peer
      have hknown : agentId ∈ registered w.calls := (h.expected agentId).mp ha
      refine ⟨fun id => ?_, fun id => ?_, fun id hid => ?_, fun id hid => ?_, rfl⟩
      · rw [mem_registered_append]
        exact (h.expected id).trans (by simp)
      · rw [latestEvent_append]
        refine InsertionSet.mem_delete.trans ?_
        by_cases hid : agentId = id
        · simp [event, hid]
        · rw [h.current id]
          simp [event, hid, Ne.symm hid]
      · rw [latestEvent_append]
        by_cases heq : agentId = id
        · simp [event, heq]
        · have hold : id ∈ w.detector.lostPeers :=
            (InsertionSet.mem_add.mp hid).resolve_left (Ne.symm heq)
          simp [event, heq, h.lost id hold]
      · by_cases heq : agentId = id
        · exact mem_registered_append.mpr (.inl (heq ▸ hknown))
        · refine mem_registered_append.mpr (.inl (h.known id ?_))
          simpa [latestEvent_append, event, heq] using hid
  | peerReconnected agentId =>
      -- so is the reconnection, and the peer leaves the lost ones
      have hknown : agentId ∈ registered w.calls := (h.expected agentId).mp ha
      refine ⟨fun id => ?_, fun id => ?_, fun id hid => ?_, fun id hid => ?_, rfl⟩
      · rw [mem_registered_append]
        exact (h.expected id).trans (by simp)
      · rw [latestEvent_append]
        refine InsertionSet.mem_add.trans ?_
        by_cases hid : agentId = id
        · simp [event, hid]
        · rw [h.current id]
          simp [event, hid, Ne.symm hid]
      · obtain ⟨hne, hold⟩ := InsertionSet.mem_delete.mp hid
        rw [latestEvent_append]
        simp [event, Ne.symm hne, h.lost id hold]
      · by_cases heq : agentId = id
        · exact mem_registered_append.mpr (.inl (heq ▸ hknown))
        · refine mem_registered_append.mpr (.inl (h.known id ?_))
          simpa [latestEvent_append, event, heq] using hid

theorem Kept.follows {partitionThreshold : Number} {w : Watch} (h : Kept partitionThreshold w) :
    Follows partitionThreshold (registered w.calls) (connected w.calls) w.detector := by
  have hE : w.detector.expectedPeers.toFinset = registered w.calls :=
    Finset.ext fun id => InsertionSet.mem_toFinset.trans (h.expected id)
  have hC : w.detector.currentPeers.toFinset = connected w.calls := by
    ext id
    rw [InsertionSet.mem_toFinset, h.current id, connected, Finset.mem_filter]
    constructor
    · intro hid
      exact ⟨h.known id (by rw [hid]; exact Option.some_ne_none _), hid⟩
    · exact And.right
  have hsub : connected w.calls ⊆ registered w.calls := Finset.filter_subset _ _
  apply follows_of_stateOf hsub
  · rw [h.state, InsertionSet.size_eq_card, InsertionSet.size_eq_card, hE, hC]
  · intro id hid
    have hfalse : latestEvent w.calls id = some false := h.lost id hid
    refine ⟨h.known id (by rw [hfalse]; exact Option.some_ne_none _), fun hmem => ?_⟩
    rw [connected, Finset.mem_filter, hfalse] at hmem
    cases hmem.2

/-- In every run whose losses and reconnects are those of registered peers, the detector is in the
state that the registered and the connected peers call for. -/
theorem state_follows_peers {partitionThreshold : Number} {w : Watch}
    (hw : (machine partitionThreshold).ReachableUnder OfRegistered w) :
    Follows partitionThreshold (registered w.calls) (connected w.calls) w.detector := by
  have hkept : Kept partitionThreshold w := by
    apply hw.invariant (kept_init partitionThreshold)
    intro s a s' hs ha hstep
    obtain rfl := Option.some.inj hstep
    exact hs.step a ha
  exact hkept.follows

/-- One of three registered peers is connected, at a threshold of a half. -/
theorem state_follows_peers_partitioned : ∃ w : Watch,
    w.detector.state = .partitioned ∧ (connected w.calls).card = 1 ∧
      Follows (.finite (1 / 2)) (registered w.calls) (connected w.calls) w.detector := by
  have hrun : ((machine (.finite (1 / 2))).runFrom (machine (.finite (1 / 2))).init
      [(.addKnownPeer "a", 0), (.addKnownPeer "b", 1), (.addKnownPeer "c", 2),
        (.peerReconnected "a", 3), (.peerReconnected "b", 4), (.peerLost "b", 5)]).map
      (fun w => (w.detector.state, (connected w.calls).card)) = some (.partitioned, 1) := by
    decide +kernel
  obtain ⟨w, hw, h⟩ := Option.map_eq_some_iff.mp hrun
  obtain ⟨hstate, hcard⟩ := Prod.mk.inj h
  exact ⟨w, hstate, hcard,
    state_follows_peers (Machine.ReachableUnder.init.runFrom (by decide +kernel) hw)⟩

/-- A reconnect of a peer that was never registered stands for the registered one. -/
theorem unregistered_peer_counts : ∃ w : Watch,
    (machine (.finite (1 / 2))).Reachable w ∧ registered w.calls = {"a"} ∧
      connected w.calls = ∅ ∧ w.detector.state = .healthy ∧
      ¬ Follows (.finite (1 / 2)) (registered w.calls) (connected w.calls) w.detector := by
  have hrun : ((machine (.finite (1 / 2))).runFrom (machine (.finite (1 / 2))).init
      [(.addKnownPeer "a", 0), (.peerReconnected "z", 1)]).map
      (fun w => (w.detector.state, registered w.calls, connected w.calls)) =
        some (.healthy, {"a"}, ∅) := by
    decide +kernel
  obtain ⟨w, hw, h⟩ := Option.map_eq_some_iff.mp hrun
  obtain ⟨hstate, hrest⟩ := Prod.mk.inj h
  obtain ⟨hE, hC⟩ := Prod.mk.inj hrest
  refine ⟨w, Machine.reachable_of_runFrom hw, hE, hC, hstate, fun hfollows => ?_⟩
  have hisolated : w.detector.state = .isolated := hfollows.isolated.mpr ⟨by rw [hE]; simp, hC⟩
  rw [hstate] at hisolated
  cases hisolated

end ThinkLocal.Mesh.Partition
