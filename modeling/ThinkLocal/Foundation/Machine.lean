import Mathlib.Tactic

/-!
# Guarded machines and their runs

A machine is an initial state and an executable step function that is `none`
where an action is not enabled.  The same function serves two readings: `runFrom`
replays a concrete list of actions, and `ReachableUnder` is the induction over
all runs.

A run may be restricted by a condition on its steps.  `ReachableUnder C` holds
of the states of the runs all of whose steps `a`, taken in a state `s`, satisfy
`C s a`; the unrestricted `Reachable` is the case of the trivial condition.
-/

namespace Foundation

section

/-- An initial state and a guarded step function. -/
structure Machine (State Action : Type*) where
  init : State
  step : State → Action → Option State

namespace Machine

variable {State Action : Type*} (M : Machine State Action)

/-! ## Reachable states -/

/-- The states of the runs whose every step satisfies `C`. -/
inductive ReachableUnder (C : State → Action → Prop) : State → Prop
  | init : ReachableUnder C M.init
  | step {s s' : State} {a : Action} : ReachableUnder C s → C s a →
      M.step s a = some s' → ReachableUnder C s'

/-- The states of all runs. -/
abbrev Reachable : State → Prop :=
  M.ReachableUnder fun _ _ => True

variable {M} {C D : State → Action → Prop}

/-- A run under a condition is a run under every weaker one. -/
theorem ReachableUnder.mono (hCD : ∀ s a, C s a → D s a) {s : State}
    (h : M.ReachableUnder C s) : M.ReachableUnder D s := by
  induction h with
  | init => exact .init
  | step _ hC hstep ih => exact .step ih (hCD _ _ hC) hstep

theorem ReachableUnder.reachable {s : State} (h : M.ReachableUnder C s) : M.Reachable s :=
  h.mono fun _ _ _ => trivial

/-! ## Invariants -/

/-- A predicate that holds initially and survives every step that satisfies the
condition holds in every state of the restricted runs. -/
theorem ReachableUnder.invariant {I : State → Prop} (hinit : I M.init)
    (hstep : ∀ s a s', I s → C s a → M.step s a = some s' → I s') {s : State}
    (h : M.ReachableUnder C s) : I s := by
  induction h with
  | init => exact hinit
  | step _ hC hs ih => exact hstep _ _ _ ih hC hs

/-- The same for all runs. -/
theorem Reachable.invariant {I : State → Prop} (hinit : I M.init)
    (hstep : ∀ s a s', I s → M.step s a = some s' → I s') {s : State}
    (h : M.Reachable s) : I s :=
  ReachableUnder.invariant hinit (fun s a s' hI _ hs => hstep s a s' hI hs) h

/-- An invariant proved relative to a second one, already known of all runs. -/
theorem ReachableUnder.invariant_with {I J : State → Prop} (hJ : ∀ s, M.Reachable s → J s)
    (hinit : I M.init)
    (hstep : ∀ s a s', J s → I s → C s a → M.step s a = some s' → I s') {s : State}
    (h : M.ReachableUnder C s) : I s := by
  induction h with
  | init => exact hinit
  | step hs hC hstep' ih => exact hstep _ _ _ (hJ _ hs.reachable) ih hC hstep'

/-! ## Replaying a list of actions -/

variable (M) in
/-- The state after the actions, or `none` at the first one that is not enabled. -/
def runFrom (s : State) : List Action → Option State
  | [] => some s
  | a :: rest => (M.step s a).bind fun s' => runFrom s' rest

variable (M C) in
/-- Every step of the replay satisfies the condition. -/
def Meets (s : State) : List Action → Prop
  | [] => True
  | a :: rest => C s a ∧ ∀ s', M.step s a = some s' → Meets s' rest

instance decidableMeets [∀ s a, Decidable (C s a)] :
    (s : State) → (actions : List Action) → Decidable (M.Meets C s actions)
  | _, [] => .isTrue trivial
  | s, a :: rest =>
      have : Decidable (∀ s', M.step s a = some s' → M.Meets C s' rest) :=
        match M.step s a with
        | none => .isTrue fun _ hs => nomatch hs
        | some s' =>
            match decidableMeets s' rest with
            | .isTrue hrest => .isTrue fun _ hs => Option.some.inj hs ▸ hrest
            | .isFalse hrest => .isFalse fun hall => hrest (hall s' rfl)
      inferInstanceAs (Decidable (C s a ∧ ∀ s', M.step s a = some s' → M.Meets C s' rest))

/-- Conditions that agree are met by the same replays. -/
theorem meets_congr (hCD : ∀ s a, C s a ↔ D s a) (s : State) (actions : List Action) :
    M.Meets C s actions ↔ M.Meets D s actions := by
  induction actions generalizing s with
  | nil => exact Iff.rfl
  | cons a rest ih => exact and_congr (hCD s a) (forall_congr' fun s' => imp_congr_right fun _ => ih s')

/-- A replay whose steps satisfy the condition ends in a state of the restricted runs. -/
theorem ReachableUnder.runFrom {s s' : State} {actions : List Action}
    (h : M.ReachableUnder C s) (hmeets : M.Meets C s actions)
    (hrun : M.runFrom s actions = some s') : M.ReachableUnder C s' := by
  induction actions generalizing s with
  | nil =>
      obtain rfl := Option.some.inj hrun
      exact h
  | cons a rest ih =>
      obtain ⟨next, hnext, hrest⟩ := Option.bind_eq_some_iff.mp hrun
      exact ih (.step h hmeets.1 hnext) (hmeets.2 next hnext) hrest

theorem meets_true (s : State) (actions : List Action) :
    M.Meets (fun _ _ => True) s actions := by
  induction actions generalizing s with
  | nil => trivial
  | cons a rest ih => exact ⟨trivial, fun s' _ => ih s'⟩

/-- The end of a replay from the initial state is reachable. -/
theorem reachable_of_runFrom {s : State} {actions : List Action}
    (hrun : M.runFrom M.init actions = some s) : M.Reachable s :=
  ReachableUnder.init.runFrom (meets_true _ _) hrun

end Machine

end

/-! ## Runs without their hidden actions

An observer sees a view of the state.  If a hidden action leaves the view as it is,
and any other action takes equal views to equal views, then the observer cannot
tell a run from the same run with all hidden actions deleted.
-/

variable {State Action View : Type*}

/-- The actions that are not hidden. -/
def purge (hidden : Action → Bool) (actions : List Action) : List Action :=
  actions.filter fun a => hidden a = false

/-- The conditions on one step, for a total step function. -/
structure Unwinding (step : State → Action → State) (hidden : Action → Bool)
    (view : State → View) : Prop where
  hidden_step : ∀ s a, hidden a = true → view (step s a) = view s
  visible_step : ∀ s t a, hidden a = false → view s = view t → view (step s a) = view (step t a)

variable {step : State → Action → State} {hidden : Action → Bool} {view : State → View}

/-- Deleting the hidden actions of a run does not change the view of its last state. -/
theorem Unwinding.view_run (h : Unwinding step hidden view) (actions : List Action) {s t : State}
    (hview : view s = view t) :
    view (actions.foldl step s) = view ((purge hidden actions).foldl step t) := by
  induction actions generalizing s t with
  | nil => exact hview
  | cons a actions ih =>
      cases ha : hidden a with
      | true =>
          have hpurge : purge hidden (a :: actions) = purge hidden actions := by
            simp [purge, ha]
          rw [List.foldl_cons, hpurge]
          exact ih ((h.hidden_step s a ha).trans hview)
      | false =>
          have hpurge : purge hidden (a :: actions) = a :: purge hidden actions := by
            simp [purge, ha]
          rw [List.foldl_cons, hpurge, List.foldl_cons]
          exact ih (h.visible_step s t a ha hview)

end Foundation
