import ThinkLocal.Foundation.Coalescing
import ThinkLocal.Foundation.Machine
import ThinkLocal.Js.Value

/-!
# Wake-ups

The emitter of `wake-contract.ts`.  A message for a live instance wakes it at most once in a window.
The wake-up is remembered before the URI of the instance is looked up and before the event is
emitted, so where one of them fails, the next messages are suppressed by a wake-up that never was.
-/

namespace ThinkLocal.Wake

open Foundation Js

def defaultWakeCoalesceMs : Int := 2000

abbrev WakeCoalescer := Coalescer String Int

/-- Asks for an instance, and remembers the time if it is to be woken. -/
abbrev shouldWake (coalescer : WakeCoalescer) (instanceId : String) (nowMs : Int) :
    Bool × WakeCoalescer :=
  coalescer.ask instanceId nowMs

def resolveWakeTargets (targetInstance : Option String) (liveInstanceIds : List String) :
    List String :=
  match targetInstance with
  | none => []
  | some id => if id = "" then [] else if id ∈ liveInstanceIds then [id] else []

/-- The instances to wake, and the coalescer after that. -/
def computeWakes (targetInstance : Option String) (liveInstanceIds : List String)
    (coalescer : WakeCoalescer) (nowMs : Int) : List String × WakeCoalescer :=
  (resolveWakeTargets targetInstance liveInstanceIds).foldl
    (fun (out, coalescer) id =>
      let (wake, coalescer) := shouldWake coalescer id nowMs
      (if wake then out ++ [id] else out, coalescer))
    ([], coalescer)

/-! ## The emitter -/

/-- What `resolveSpiffe` gives for an instance. -/
inductive SpiffeLookup
  | found (uri : Option String)
  | thrown

/-- The URI of a lookup, if it is not empty. -/
def SpiffeLookup.uri : SpiffeLookup → Option String
  | found uri => uri.filter fun uri => uri ≠ ""
  | thrown => none

/-- An event `agent:wake` that was emitted. -/
structure AgentWake where
  instance_id : String
  spiffe_uri : String
  /-- The instances that were live. -/
  live : List String
  time : Int
deriving DecidableEq

/-- An event `inbox:new` with what its handler meets. -/
structure InboxNew where
  to_agent_instance : Plain
  live : List String
  resolveSpiffe : String → SpiffeLookup
  time : Int
  /-- Does `emit` throw? -/
  emitThrows : Bool

/-- The instance that a message is for. -/
def InboxNew.target (event : InboxNew) : Option String :=
  event.to_agent_instance.text?.filter fun text => text ≠ ""

/-- An event that was handled, and whether it has emitted the wake-up of its instance. -/
structure Handled where
  event : InboxNew
  emitted : Bool

structure EmitterState where
  coalescer : WakeCoalescer
  now : Int
  wakes : List AgentWake
  handled : List Handled

/-- The wake-ups that a handler emits: it ends where the lookup or `emit` throws. -/
def emitWakes (event : InboxNew) : List String → List AgentWake
  | [] => []
  | id :: rest =>
      match event.resolveSpiffe id with
      | .thrown => []
      | .found none | .found (some "") => emitWakes event rest
      | .found (some uri) =>
          if event.emitThrows then [] else ⟨id, uri, event.live, event.time⟩ :: emitWakes event rest

/-- The handler of `inbox:new`. -/
def handleInboxNew (s : EmitterState) (event : InboxNew) : List AgentWake × WakeCoalescer :=
  if event.target.any fun id => id ∉ event.live then ([], s.coalescer)
  else
    let (wakes, coalescer) := computeWakes event.target event.live s.coalescer event.time
    (emitWakes event wakes, coalescer)

/-- The clock does not go back. -/
def step (s : EmitterState) (event : InboxNew) : Option EmitterState :=
  if s.now ≤ event.time then
    some
      { coalescer := (handleInboxNew s event).2
        now := event.time
        wakes := (handleInboxNew s event).1 ++ s.wakes
        handled :=
          ⟨event, event.target.any fun id =>
            (handleInboxNew s event).1.any fun w => w.instance_id = id⟩ :: s.handled }
  else none

/-- An emitter with a window, from a time on. -/
def wakeEmitter (windowMs start : Int) : Machine EmitterState InboxNew where
  init := ⟨.new windowMs, start, [], []⟩
  step := step

/-! ## What an event does -/

variable {s s' : EmitterState} {event : InboxNew} {id : String} {windowMs start : Int}

/-- An event for a live instance that passes the coalescer. -/
def Passes (s : EmitterState) (event : InboxNew) (id : String) : Prop :=
  event.target = some id ∧ id ∈ event.live ∧ s.coalescer.admits id event.time = true

instance (s : EmitterState) (event : InboxNew) (id : String) : Decidable (Passes s event id) :=
  inferInstanceAs (Decidable (_ ∧ _ ∧ _))

theorem target_ne_empty (h : event.target = some id) : id ≠ "" := by
  have hne := (Option.filter_eq_some_iff.mp h).2
  simpa using hne

/-- An event for no live instance wakes nobody. -/
theorem handleInboxNew_of_not_live (h : ∀ id, event.target = some id → id ∉ event.live) :
    handleInboxNew s event = ([], s.coalescer) := by
  unfold handleInboxNew
  cases htarget : event.target with
  | none => rfl
  | some id =>
      rw [if_pos]
      simpa using h id htarget

theorem handleInboxNew_of_live (htarget : event.target = some id) (hlive : id ∈ event.live) :
    handleInboxNew s event =
      (emitWakes event (if s.coalescer.admits id event.time then [id] else []),
        (s.coalescer.ask id event.time).2) := by
  have hcompute : computeWakes (some id) event.live s.coalescer event.time =
      (if s.coalescer.admits id event.time then [id] else [], (s.coalescer.ask id event.time).2) := by
    rw [computeWakes, resolveWakeTargets, if_neg (target_ne_empty htarget), if_pos hlive,
      List.foldl_cons, List.foldl_nil, ← s.coalescer.ask_fst]
    rfl
  rw [handleInboxNew, htarget, if_neg (by simpa using hlive), hcompute]

/-- A passing event emits the wake-up exactly if there is a URI and `emit` does not throw. -/
theorem emitWakes_singleton (event : InboxNew) (id : String) :
    emitWakes event [id] =
      match (event.resolveSpiffe id).uri, event.emitThrows with
      | some uri, false => [⟨id, uri, event.live, event.time⟩]
      | _, _ => [] := by
  unfold emitWakes
  cases event.resolveSpiffe id with
  | thrown => cases event.emitThrows <;> rfl
  | found uri =>
      cases uri with
      | none => cases event.emitThrows <;> rfl
      | some uri =>
          by_cases hempty : uri = ""
          · subst hempty
            cases event.emitThrows <;> rfl
          · have huri : (SpiffeLookup.found (some uri)).uri = some uri := by
              simp [SpiffeLookup.uri, hempty]
            rw [huri]
            cases event.emitThrows <;> simp [emitWakes]

/-! ## Every suppressed message has a wake-up -/

/-- A wake-up of an instance within the window before a time. -/
def WokenWithin (windowMs : Int) (wakes : List AgentWake) (id : String) (t : Int) : Prop :=
  ∃ w ∈ wakes, w.instance_id = id ∧ t - windowMs < w.time ∧ w.time ≤ t

/-- A message for a live instance with a URI is followed by a wake-up, or there was one within the
window. -/
def NoLostWake (windowMs : Int) (s : EmitterState) : Prop :=
  ∀ h ∈ s.handled, ∀ id, h.event.target = some id → id ∈ h.event.live →
    (h.event.resolveSpiffe id).uri.isSome → h.emitted = false →
      WokenWithin windowMs s.wakes id h.event.time

/-- Only live instances were woken. -/
def OnlyLive (s : EmitterState) : Prop := ∀ w ∈ s.wakes, w.instance_id ∈ w.live

/-- An event that passes the coalescer meets a URI, and `emit` does not throw. -/
def Wakes (s : EmitterState) (event : InboxNew) : Prop :=
  ∀ id, Passes s event id → (event.resolveSpiffe id).uri.isSome ∧ event.emitThrows = false

/-- The three ways of an event: its target is not live, it is suppressed, or it passes. -/
theorem step_cases (hs : step s event = some s') :
    s.now ≤ event.time ∧ s'.now = event.time ∧
      (((∀ id, event.target = some id → id ∉ event.live) ∧ s'.coalescer = s.coalescer ∧
          s'.wakes = s.wakes ∧ s'.handled = ⟨event, false⟩ :: s.handled) ∨
        ∃ id, event.target = some id ∧ id ∈ event.live ∧
          s'.coalescer = (s.coalescer.ask id event.time).2 ∧
          ((s.coalescer.admits id event.time = false ∧ s'.wakes = s.wakes ∧
              s'.handled = ⟨event, false⟩ :: s.handled) ∨
            (s.coalescer.admits id event.time = true ∧
              s'.wakes = emitWakes event [id] ++ s.wakes ∧
              s'.handled = ⟨event, (emitWakes event [id]).any fun w => w.instance_id = id⟩ ::
                s.handled))) := by
  rw [step] at hs
  split_ifs at hs with hclock
  obtain rfl := Option.some.inj hs
  refine ⟨hclock, rfl, ?_⟩
  -- without a live target nothing is remembered
  by_cases hlive : ∃ id, event.target = some id ∧ id ∈ event.live
  · obtain ⟨id, htarget, hlive⟩ := hlive
    refine .inr ⟨id, htarget, hlive, ?_⟩
    rw [handleInboxNew_of_live htarget hlive, htarget]
    refine ⟨rfl, ?_⟩
    cases hadmits : s.coalescer.admits id event.time with
    | false => exact .inl ⟨rfl, rfl, rfl⟩
    | true => exact .inr ⟨rfl, rfl, by simp⟩
  · have hnot : ∀ id, event.target = some id → id ∉ event.live :=
      fun id htarget hmem => hlive ⟨id, htarget, hmem⟩
    rw [handleInboxNew_of_not_live hnot]
    refine .inl ⟨hnot, rfl, rfl, ?_⟩
    cases event.target <;> rfl

/-- The invariant: what is remembered was emitted. -/
structure Truthful (windowMs : Int) (s : EmitterState) : Prop where
  window : s.coalescer.window = windowMs
  remembered : ∀ id t, s.coalescer.last.get id = some t →
    t ≤ s.now ∧ ∃ w ∈ s.wakes, w.instance_id = id ∧ w.time = t
  noLostWake : NoLostWake windowMs s

/-- More wake-ups lose none. -/
theorem WokenWithin.mono {wakes wakes' : List AgentWake} {t : Int}
    (h : WokenWithin windowMs wakes id t) (hsub : ∀ w ∈ wakes, w ∈ wakes') :
    WokenWithin windowMs wakes' id t := by
  obtain ⟨w, hw, hfacts⟩ := h
  exact ⟨w, hsub w hw, hfacts⟩

/-- The messages that were handled before are not affected. -/
theorem noLostWake_cons {handled : Handled} (h : NoLostWake windowMs s)
    (hhandled : s'.handled = handled :: s.handled) (hsub : ∀ w ∈ s.wakes, w ∈ s'.wakes)
    (hnew : ∀ id, handled.event.target = some id → id ∈ handled.event.live →
      (handled.event.resolveSpiffe id).uri.isSome → handled.emitted = false →
        WokenWithin windowMs s'.wakes id handled.event.time) : NoLostWake windowMs s' := by
  intro old hmem id htarget hlive huri hemitted
  rw [hhandled] at hmem
  rcases List.mem_cons.mp hmem with rfl | hmem
  · exact hnew id htarget hlive huri hemitted
  · exact (h old hmem id htarget hlive huri hemitted).mono hsub

theorem truthful_step (h : Truthful windowMs s) (hwakes : Wakes s event)
    (hs : step s event = some s') : Truthful windowMs s' := by
  obtain ⟨hclock, hnow, hcase⟩ := step_cases hs
  rcases hcase with ⟨hnot, hcoalescer, hwakes', hhandled⟩ | ⟨id, htarget, hlive, hcoalescer, hcase⟩
  · refine ⟨hcoalescer ▸ h.window, fun id t hget => ?_, ?_⟩
    · rw [hcoalescer] at hget
      obtain ⟨hle, hmem⟩ := h.remembered id t hget
      rw [hnow, hwakes']
      exact ⟨hle.trans hclock, hmem⟩
    · refine noLostWake_cons h.noLostWake hhandled (fun w hw => hwakes' ▸ hw) ?_
      exact fun id htarget hlive => absurd hlive (hnot id htarget)
  rcases hcase with ⟨hadmits, hwakes', hhandled⟩ | ⟨hadmits, hwakes', hhandled⟩
  · -- suppressed: what is remembered was emitted within the window
    obtain ⟨prev, hprev, hwithin⟩ := Coalescer.exists_of_not_admits hadmits
    have hsame : s'.coalescer = s.coalescer := by
      rw [hcoalescer, Coalescer.ask, hadmits]
      rfl
    refine ⟨hsame ▸ h.window, fun id t hget => ?_, ?_⟩
    · rw [hsame] at hget
      obtain ⟨hle, hmem⟩ := h.remembered id t hget
      rw [hnow, hwakes']
      exact ⟨hle.trans hclock, hmem⟩
    · refine noLostWake_cons h.noLostWake hhandled (fun w hw => hwakes' ▸ hw) ?_
      intro id' htarget' _ _ _
      obtain rfl := Option.some.inj (htarget.symm.trans htarget')
      obtain ⟨hle, w, hw, hid, htime⟩ := h.remembered id prev hprev
      rw [h.window] at hwithin
      refine ⟨w, hwakes' ▸ hw, hid, ?_, ?_⟩
      · dsimp only
        omega
      · dsimp only
        omega
  · -- passed: the wake-up is emitted now
    obtain ⟨huri, hthrows⟩ := hwakes id ⟨htarget, hlive, hadmits⟩
    obtain ⟨uri, huri⟩ := Option.isSome_iff_exists.mp huri
    have hemit : emitWakes event [id] = [⟨id, uri, event.live, event.time⟩] := by
      rw [emitWakes_singleton, huri, hthrows]
    rw [hemit] at hwakes' hhandled
    refine ⟨?_, fun id' t hget => ?_, ?_⟩
    · rw [hcoalescer, Coalescer.window_ask, h.window]
    · rw [hcoalescer] at hget
      rw [hnow, hwakes']
      rcases Coalescer.get_ask hget with hold | ⟨-, rfl, rfl⟩
      · obtain ⟨hle, w, hw, hfacts⟩ := h.remembered id' t hold
        exact ⟨hle.trans hclock, w, List.mem_append_right _ hw, hfacts⟩
      · exact ⟨le_rfl, _, List.mem_cons_self, rfl, rfl⟩
    · refine noLostWake_cons h.noLostWake hhandled
        (fun w hw => hwakes' ▸ List.mem_append_right _ hw) ?_
      intro id' htarget' _ _ hemitted
      obtain rfl := Option.some.inj (htarget.symm.trans htarget')
      simp at hemitted

theorem onlyLive_step (h : OnlyLive s) (hs : step s event = some s') : OnlyLive s' := by
  obtain ⟨-, -, ⟨-, -, hwakes, -⟩ | ⟨id, -, hlive, -, ⟨-, hwakes, -⟩ | ⟨-, hwakes, -⟩⟩⟩ :=
    step_cases hs
  · exact fun w hw => h w (hwakes ▸ hw)
  · exact fun w hw => h w (hwakes ▸ hw)
  · intro w hw
    rw [hwakes, emitWakes_singleton] at hw
    rcases List.mem_append.mp hw with hnew | hold
    · split at hnew
      · obtain rfl := List.mem_singleton.mp hnew
        exact hlive
      · cases hnew
    · exact h w hold

/-- Where every event that passes the coalescer emits its wake-up, no message is suppressed without
one; only live instances are woken, and forgetting old wake-ups changes no answer. -/
theorem wakes_are_real (windowMs start : Int) :
    (∀ s, (wakeEmitter windowMs start).ReachableUnder Wakes s → NoLostWake windowMs s) ∧
      (∀ s, (wakeEmitter windowMs start).Reachable s → OnlyLive s) ∧
      ∀ questions : List (String × Int), (start :: questions.map Prod.snd).Pairwise (· ≤ ·) →
        Coalescer.answers shouldWake (.new windowMs) questions =
          Coalescer.answers Coalescer.askKeeping (.new windowMs) questions := by
  have hinit : Truthful windowMs (wakeEmitter windowMs start).init :=
    ⟨rfl, fun _ _ hget => (nomatch hget), fun _ hmem => (nomatch hmem)⟩
  have hlive : OnlyLive (wakeEmitter windowMs start).init := fun _ hmem => nomatch hmem
  refine ⟨fun s hs => ?_, fun s hs => ?_, fun questions hclock => ?_⟩
  · exact (hs.invariant hinit fun _ _ _ h hwakes hs => truthful_step h hwakes hs).noLostWake
  · exact Machine.Reachable.invariant hlive (fun _ _ _ h hs => onlyLive_step h hs) hs
  · exact Coalescer.answers_eq (Coalescer.agrees_refl start _) questions hclock

/-! ## Two messages -/

instance (s : EmitterState) (event : InboxNew) : Decidable (Wakes s event) :=
  decidable_of_iff (∀ id ∈ event.target, Passes s event id →
      (event.resolveSpiffe id).uri.isSome ∧ event.emitThrows = false)
    ⟨fun h id hpasses => h id hpasses.1 hpasses, fun h id _ => h id⟩

/-- A message for the live instance `a`. -/
def sampleEvent (uri : Option String) (time : Int) : InboxNew where
  to_agent_instance := .string "a"
  live := ["a"]
  resolveSpiffe := fun _ => .found uri
  time := time
  emitThrows := false

/-- The second message is suppressed by the wake-up of the first. -/
theorem wakes_are_real_twice : ∃ s, (wakeEmitter 2000 0).runFrom (wakeEmitter 2000 0).init
    [sampleEvent (some "uri") 1, sampleEvent (some "uri") 2] = some s ∧ s.handled.length = 2 ∧
      s.wakes.map (·.time) = [1] ∧ NoLostWake 2000 s := by
  have hrun : ((wakeEmitter 2000 0).runFrom (wakeEmitter 2000 0).init
      [sampleEvent (some "uri") 1, sampleEvent (some "uri") 2]).map
        (fun s => (s.handled.length, s.wakes.map (·.time))) = some (2, [1]) := by decide +kernel
  obtain ⟨s, hs, hfacts⟩ := Option.map_eq_some_iff.mp hrun
  have hmeets : (wakeEmitter 2000 0).Meets Wakes (wakeEmitter 2000 0).init
      [sampleEvent (some "uri") 1, sampleEvent (some "uri") 2] := by decide +kernel
  have hreach := Machine.ReachableUnder.init.runFrom hmeets hs
  exact ⟨s, hs, (Prod.mk.inj hfacts).1, (Prod.mk.inj hfacts).2, (wakes_are_real 2000 0).1 s hreach⟩

/-- The first message finds no URI and the second is suppressed: the instance is never woken. -/
theorem wake_suppressed_by_none : ∃ s, (wakeEmitter 2000 0).Reachable s ∧ s.wakes = [] ∧
    ¬ NoLostWake 2000 s := by
  have hrun : ((wakeEmitter 2000 0).runFrom (wakeEmitter 2000 0).init
      [sampleEvent none 1, sampleEvent (some "uri") 2]).map (fun s => (s.wakes, s.handled)) =
        some ([], [⟨sampleEvent (some "uri") 2, false⟩, ⟨sampleEvent none 1, false⟩]) := rfl
  obtain ⟨s, hs, hfacts⟩ := Option.map_eq_some_iff.mp hrun
  obtain ⟨hwakes, hhandled⟩ := Prod.mk.inj hfacts
  refine ⟨s, Machine.reachable_of_runFrom hs, hwakes, fun hnone => ?_⟩
  obtain ⟨w, hw, -⟩ := hnone ⟨sampleEvent (some "uri") 2, false⟩ (by simp [hhandled]) "a" (by decide)
    (by decide) (by decide) rfl
  rw [hwakes] at hw
  cases hw

end ThinkLocal.Wake
