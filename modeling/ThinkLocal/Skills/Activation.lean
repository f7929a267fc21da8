import ThinkLocal.Foundation.InsertionMap
import ThinkLocal.Js.Date

/-!
# The activation store

`CapabilityActivationStore` of `capability-activation.ts`.  The table has one row for
a capability and the peer that it comes from, so the rows are a map over these pairs.
An instant is written as its text.
-/

namespace ThinkLocal.Skills

open Foundation Js

inductive CapabilityState
  | discovered
  | active
  | suspended
  | revoked
  deriving DecidableEq, Repr

/-- A capability and its origin. -/
abbrev CapabilityKey := String × String

structure CapabilityActivationRow where
  id : Nat
  version : String
  state : CapabilityState
  manifest_hash : Option String
  activated_at : Option (List Char)
  suspended_at : Option (List Char)
  revoked_at : Option (List Char)
  /-- The object of `metadata_json`; the empty object is written as `NULL`. -/
  metadata : InsertionMap String String
  updated_at : List Char

structure CapabilityActivationStore where
  rows : InsertionMap CapabilityKey CapabilityActivationRow
  nextId : Nat

/-- `new Date().toISOString()`; the clock is valid. -/
def isoNow (now : Int) : List Char := (toISOString now).getD []

namespace CapabilityActivationStore

def empty : CapabilityActivationStore := ⟨.empty, 1⟩

def get (s : CapabilityActivationStore) (key : CapabilityKey) : Option CapabilityActivationRow :=
  s.rows.get key

/-- Writes a row. -/
def put (s : CapabilityActivationStore) (key : CapabilityKey) (row : CapabilityActivationRow) :
    CapabilityActivationStore :=
  { s with rows := s.rows.set key row }

def isActive (s : CapabilityActivationStore) (key : CapabilityKey) : Bool :=
  (s.get key).any fun row => row.state = .active

def discover (s : CapabilityActivationStore) (key : CapabilityKey) (version : String)
    (manifestHash : Option String) (now : Int) : CapabilityActivationStore × Nat :=
  match s.get key with
  | some existing =>
      (s.put key
        { existing with
          version := version, manifest_hash := manifestHash, updated_at := isoNow now },
        existing.id)
  | none =>
      let row : CapabilityActivationRow :=
        { id := s.nextId, version := version, state := .discovered
          manifest_hash := manifestHash, activated_at := none, suspended_at := none
          revoked_at := none, metadata := .empty, updated_at := isoNow now }
      ({ s.put key row with nextId := s.nextId + 1 }, s.nextId)

/-- `UPDATE` of the row of a pair, if it is in one of the given states; was there a change? -/
def update (s : CapabilityActivationStore) (key : CapabilityKey)
    (states : CapabilityState → Bool) (row : CapabilityActivationRow → CapabilityActivationRow) :
    CapabilityActivationStore × Bool :=
  match s.get key with
  | some existing =>
      if states existing.state then (s.put key (row existing), true) else (s, false)
  | none => (s, false)

def activate (s : CapabilityActivationStore) (key : CapabilityKey) (now : Int) :
    CapabilityActivationStore × Bool :=
  s.update key (fun state => state = .discovered ∨ state = .suspended) fun row =>
    { row with state := .active, activated_at := some (isoNow now), updated_at := isoNow now }

/-- The metadata with a reason, if there is one. -/
def withReason (metadata : InsertionMap String String) (field : String)
    (reason : Option String) : InsertionMap String String :=
  match reason.filter fun text => text ≠ "" with
  | some text => metadata.set field text
  | none => metadata

def suspend (s : CapabilityActivationStore) (key : CapabilityKey) (reason : Option String)
    (now : Int) : CapabilityActivationStore × Bool :=
  s.update key (fun state => state = .active) fun row =>
    { row with
      state := .suspended, suspended_at := some (isoNow now)
      metadata := withReason row.metadata "suspend_reason" reason
      updated_at := isoNow now }

def revoke (s : CapabilityActivationStore) (key : CapabilityKey) (reason : Option String)
    (now : Int) : CapabilityActivationStore × Bool :=
  s.update key (fun state => state ≠ .revoked) fun row =>
    { row with
      state := .revoked, revoked_at := some (isoNow now)
      metadata := withReason row.metadata "revoke_reason" reason
      updated_at := isoNow now }

/-- The rows that are revoked before a cutoff. -/
def prunable (cutoff : List Char) (row : CapabilityActivationRow) : Bool :=
  row.state = .revoked ∧ row.revoked_at.any fun at' => textBefore at' cutoff

/-- An age of `none` is not finite.  The result is the number of deleted rows; a cutoff without
a text throws before anything is deleted. -/
def pruneRevokedOlderThan (s : CapabilityActivationStore) (maxAgeMs : Option Int) (now : Int) :
    CapabilityActivationStore × Option Nat :=
  match maxAgeMs.filter fun age => 0 < age with
  | none => (s, some 0)
  | some age =>
      match toISOString (now - age) with
      | none => (s, none)
      | some cutoff =>
          let kept := s.rows.filter fun _ row => ! prunable cutoff row
          ({ s with rows := kept }, some (s.rows.size - kept.size))

/-! ## Lookups after an operation -/

variable {s : CapabilityActivationStore} {key key' : CapabilityKey}

/-- The state of a pair, if it has a row. -/
def stateOf (s : CapabilityActivationStore) (key : CapabilityKey) : Option CapabilityState :=
  (s.get key).map fun row => row.state

theorem isActive_iff : s.isActive key = true ↔ s.stateOf key = some .active := by
  unfold isActive stateOf
  cases s.get key <;> simp

/-- A write of a row decides the state of its pair only. -/
theorem stateOf_put (row : CapabilityActivationRow) :
    (s.put key row).stateOf key' = if key' = key then some row.state else s.stateOf key' := by
  unfold stateOf get put
  dsimp only
  rw [InsertionMap.get_set]
  split <;> rfl

theorem stateOf_discover (version : String) (manifestHash : Option String) (now : Int) :
    (s.discover key version manifestHash now).1.stateOf key' =
      if key' = key then (s.stateOf key).or (some .discovered) else s.stateOf key' := by
  have hstate : s.stateOf key = (s.get key).map fun row => row.state := rfl
  unfold discover
  cases hrow : s.get key with
  | some existing =>
      rw [hstate, hrow]
      exact stateOf_put _
  | none =>
      rw [hstate, hrow]
      exact stateOf_put _

theorem update_snd (states : CapabilityState → Bool)
    (row : CapabilityActivationRow → CapabilityActivationRow) :
    (s.update key states row).2 = (s.stateOf key).any states := by
  unfold update stateOf
  cases s.get key with
  | none => rfl
  | some existing =>
      dsimp only
      split <;> simp_all

/-- The state after an update, which is the same for all updated rows. -/
theorem stateOf_update {states : CapabilityState → Bool} {state : CapabilityState}
    {row : CapabilityActivationRow → CapabilityActivationRow}
    (hrow : ∀ existing, (row existing).state = state) :
    (s.update key states row).1.stateOf key' =
      if key' = key ∧ (s.stateOf key).any states then some state else s.stateOf key' := by
  have hstate : s.stateOf key = (s.get key).map fun row => row.state := rfl
  unfold update
  rw [hstate]
  cases s.get key with
  | none => simp
  | some existing =>
      simp only [Option.map_some, Option.any_some]
      by_cases hexisting : states existing.state = true
      · rw [if_pos hexisting, stateOf_put, hrow]
        simp only [hexisting, and_true]
      · rw [if_neg hexisting, if_neg fun h => hexisting h.2]

theorem stateOf_activate (now : Int) :
    (s.activate key now).1.stateOf key' =
      if key' = key ∧ (s.stateOf key).any (fun state => state = .discovered ∨ state = .suspended)
      then some .active else s.stateOf key' :=
  stateOf_update fun _ => rfl

theorem stateOf_suspend (reason : Option String) (now : Int) :
    (s.suspend key reason now).1.stateOf key' =
      if key' = key ∧ (s.stateOf key).any (fun state => state = .active)
      then some .suspended else s.stateOf key' :=
  stateOf_update fun _ => rfl

theorem stateOf_revoke (reason : Option String) (now : Int) :
    (s.revoke key reason now).1.stateOf key' =
      if key' = key ∧ (s.stateOf key).any (fun state => state ≠ .revoked)
      then some .revoked else s.stateOf key' :=
  stateOf_update fun _ => rfl

/-- Pruning deletes rows of revoked pairs and nothing else. -/
theorem stateOf_prune (maxAgeMs : Option Int) (now : Int) :
    (s.pruneRevokedOlderThan maxAgeMs now).1.stateOf key = s.stateOf key ∨
      s.stateOf key = some .revoked ∧
        (s.pruneRevokedOlderThan maxAgeMs now).1.stateOf key = none := by
  unfold pruneRevokedOlderThan
  cases maxAgeMs.filter fun age => 0 < age with
  | none => exact .inl rfl
  | some age =>
      dsimp only
      -- a bound that is no date would throw, and nothing is deleted
      cases toISOString (now - age) with
      | none => exact .inl rfl
      | some cutoff =>
          unfold stateOf get
          dsimp only
          rw [InsertionMap.get_filter]
          cases s.rows.get key with
          | none => exact .inl rfl
          | some row =>
              cases hprunable : prunable cutoff row with
              | false => exact .inl (by simp [hprunable])
              | true =>
                  have hrevoked : row.state = .revoked := by
                    simp only [prunable, Bool.decide_and, Bool.and_eq_true,
                      decide_eq_true_eq] at hprunable
                    exact hprunable.1
                  exact .inr (by simp [hprunable, hrevoked])

end CapabilityActivationStore

end ThinkLocal.Skills
