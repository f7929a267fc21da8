import ThinkLocal.Foundation.InsertionMap

/-!
# Coalescing

A coalescer lets a key through at most once in a window of time.  It forgets what is older than the
window; on a clock that does not go back this changes no answer.
-/

namespace Foundation

structure Coalescer (Key Time : Type*) [DecidableEq Key] where
  window : Time
  last : InsertionMap Key Time

namespace Coalescer

variable {Key Time : Type*} [DecidableEq Key] [AddCommGroup Time] [LinearOrder Time]

def new (window : Time) : Coalescer Key Time := ⟨window, .empty⟩

/-- Does the key pass at a time? -/
def admits (c : Coalescer Key Time) (key : Key) (now : Time) : Bool :=
  (c.last.get key).all fun prev => ! decide (now - prev < c.window)

/-- Remembers a key. -/
def mark (c : Coalescer Key Time) (key : Key) (now : Time) : Coalescer Key Time :=
  { c with last := c.last.set key now }

/-- Forgets what is outside the window. -/
def prune (c : Coalescer Key Time) (now : Time) : Coalescer Key Time :=
  { c with last := c.last.filter fun _ t => ! decide (c.window ≤ now - t) }

/-- Asks for a key and remembers it if it passes. -/
def ask (c : Coalescer Key Time) (key : Key) (now : Time) : Bool × Coalescer Key Time :=
  if c.admits key now then (true, (c.mark key now).prune now) else (false, c)

/-- The same without forgetting. -/
def askKeeping (c : Coalescer Key Time) (key : Key) (now : Time) : Bool × Coalescer Key Time :=
  if c.admits key now then (true, c.mark key now) else (false, c)

/-- The answers to a list of questions. -/
def answers (ask : Coalescer Key Time → Key → Time → Bool × Coalescer Key Time) :
    Coalescer Key Time → List (Key × Time) → List Bool
  | _, [] => []
  | c, (key, now) :: rest => (ask c key now).1 :: answers ask (ask c key now).2 rest

variable {c d : Coalescer Key Time} {key : Key} {now t : Time}

theorem ask_fst (c : Coalescer Key Time) (key : Key) (now : Time) :
    (c.ask key now).1 = c.admits key now := by
  unfold ask
  cases c.admits key now <;> rfl

/-- What does not pass was let through within the window. -/
theorem exists_of_not_admits (h : c.admits key now = false) :
    ∃ prev, c.last.get key = some prev ∧ now - prev < c.window := by
  unfold admits at h
  cases hlast : c.last.get key with
  | none => simp [hlast] at h
  | some prev => exact ⟨prev, rfl, by simpa [hlast] using h⟩

/-- What is remembered after a question was remembered before, or is the question. -/
theorem get_ask (h : (c.ask key now).2.last.get k = some t) :
    c.last.get k = some t ∨ (c.admits key now = true ∧ k = key ∧ t = now) := by
  unfold ask at h
  split_ifs at h with hadmits
  · rw [prune, InsertionMap.get_filter, mark] at h
    have hset := (Option.filter_eq_some_iff.mp h).1
    rw [InsertionMap.get_set] at hset
    split at hset
    · next heq => exact .inr ⟨hadmits, heq, (Option.some.inj hset).symm⟩
    · exact .inl hset
  · exact .inl h

theorem window_ask (c : Coalescer Key Time) (key : Key) (now : Time) :
    (c.ask key now).2.window = c.window := by
  unfold ask
  split_ifs <;> rfl

/-! ## Forgetting -/

/-- From a time on, both remember the same within their window. -/
structure Agrees (now : Time) (c d : Coalescer Key Time) : Prop where
  window : c.window = d.window
  get : ∀ key t, now - t < c.window → (c.last.get key = some t ↔ d.last.get key = some t)

theorem Agrees.mono [IsOrderedAddMonoid Time] (h : Agrees now c d) {later : Time} (hle : now ≤ later) : Agrees later c d := by
  refine ⟨h.window, fun key t ht => h.get key t ?_⟩
  exact (sub_le_sub_right hle t).trans_lt ht

theorem Agrees.admits (h : Agrees now c d) (key : Key) : c.admits key now = d.admits key now := by
  rw [Bool.eq_iff_iff, ← not_iff_not, Bool.not_eq_true, Bool.not_eq_true]
  have hpassed : ∀ e : Coalescer Key Time, e.admits key now = false ↔
      ∃ t, e.last.get key = some t ∧ now - t < e.window := by
    refine fun e => ⟨exists_of_not_admits, ?_⟩
    rintro ⟨t, hget, hlt⟩
    simp [Coalescer.admits, hget, hlt]
  rw [hpassed, hpassed]
  refine exists_congr fun t => ?_
  rw [← h.window]
  exact and_congr_left fun hlt => h.get key t hlt

theorem agrees_prune (h : Agrees now c d) : Agrees now (c.prune now) d := by
  refine ⟨h.window, fun key t hlt => ?_⟩
  have hlt' : now - t < c.window := hlt
  rw [prune, InsertionMap.get_filter, ← h.get key t hlt', Option.filter_eq_some_iff]
  exact and_iff_left_of_imp fun _ => by simpa using hlt'

theorem Agrees.mark (h : Agrees now c d) (key : Key) : Agrees now (c.mark key now) (d.mark key now) := by
  refine ⟨h.window, fun k t hlt => ?_⟩
  rw [Coalescer.mark, Coalescer.mark, InsertionMap.get_set, InsertionMap.get_set]
  split
  · exact Iff.rfl
  · exact h.get k t hlt

theorem Agrees.ask (h : Agrees now c d) (key : Key) :
    (c.ask key now).1 = (d.askKeeping key now).1 ∧
      Agrees now (c.ask key now).2 (d.askKeeping key now).2 := by
  unfold Coalescer.ask Coalescer.askKeeping
  rw [h.admits]
  split_ifs
  · exact ⟨rfl, agrees_prune (h.mark key)⟩
  · exact ⟨rfl, h⟩

/-- Forgetting changes no answer on a clock that does not go back. -/
theorem answers_eq [IsOrderedAddMonoid Time] (h : Agrees now c d) (questions : List (Key × Time))
    (hclock : ((now :: questions.map Prod.snd)).Pairwise (· ≤ ·)) :
    answers ask c questions = answers askKeeping d questions := by
  induction questions generalizing now c d with
  | nil => rfl
  | cons question questions ih =>
      obtain ⟨key, t⟩ := question
      obtain ⟨hfirst, hrest⟩ := List.pairwise_cons.mp hclock
      have hagrees := (h.mono (hfirst t List.mem_cons_self)).ask key
      rw [answers, answers, hagrees.1, ih hagrees.2 hrest]

theorem agrees_refl (now : Time) (c : Coalescer Key Time) : Agrees now c c :=
  ⟨rfl, fun _ _ _ => Iff.rfl⟩

end Coalescer

end Foundation
