import Mathlib.Tactic

/-!
# Arenas

An arena holds the things that are outstanding in a run (started and not yet
finished) under numbers that are never used twice.  The structure carries the
fact that every number from `next` on is unused, so an allocation is always
fresh.
-/

namespace Foundation

/-- Outstanding values under numbers handed out in increasing order. -/
structure Arena (α : Type*) where
  get : Nat → Option α
  next : Nat
  fresh : ∀ i, next ≤ i → get i = none

namespace Arena

variable {α : Type*}

/-- The arena in which nothing is outstanding and no number is used. -/
def empty : Arena α := ⟨fun _ => none, 0, fun _ _ => rfl⟩

/-- Adds a value under the number `next`. -/
def alloc (a : Arena α) (x : α) : Arena α where
  get i := if i = a.next then some x else a.get i
  next := a.next + 1
  fresh i hi := by rw [if_neg (by omega), a.fresh i (by omega)]

/-- Changes the value under a number, if there is one. -/
def modify (a : Arena α) (i : Nat) (f : α → α) : Arena α where
  get j := if j = i then (a.get j).map f else a.get j
  next := a.next
  fresh j hj := by rw [a.fresh j hj]; simp

/-- Removes the value under a number. -/
def free (a : Arena α) (i : Nat) : Arena α where
  get j := if j = i then none else a.get j
  next := a.next
  fresh j hj := by rw [a.fresh j hj]; simp

/-- Changes every value or removes it. -/
def filterMap (a : Arena α) (f : α → Option α) : Arena α where
  get j := (a.get j).bind f
  next := a.next
  fresh j hj := by rw [a.fresh j hj]; rfl

instance : Inhabited (Arena α) := ⟨empty⟩

@[simp] theorem get_empty (i : Nat) : (empty : Arena α).get i = none := rfl

@[simp] theorem get_alloc_next (a : Arena α) (x : α) : (a.alloc x).get a.next = some x := by
  simp [alloc]

theorem get_alloc (a : Arena α) (x : α) (i : Nat) :
    (a.alloc x).get i = if i = a.next then some x else a.get i := rfl

theorem get_modify (a : Arena α) (i j : Nat) (f : α → α) :
    (a.modify i f).get j = if j = i then (a.get j).map f else a.get j := rfl

@[simp] theorem get_modify_self (a : Arena α) (i : Nat) (f : α → α) :
    (a.modify i f).get i = (a.get i).map f := by
  simp [modify]

theorem modify_modify (a : Arena α) (i : Nat) (f g : α → α) :
    (a.modify i f).modify i g = a.modify i fun x => g (f x) := by
  simp only [modify, mk.injEq, and_true]
  funext j
  split <;> simp [Function.comp_def]

theorem get_free (a : Arena α) (i j : Nat) :
    (a.free i).get j = if j = i then none else a.get j := rfl

@[simp] theorem get_filterMap (a : Arena α) (f : α → Option α) (i : Nat) :
    (a.filterMap f).get i = (a.get i).bind f := rfl

/-- A number in use lies below `next`. -/
theorem lt_next (a : Arena α) {i : Nat} {x : α} (h : a.get i = some x) : i < a.next := by
  by_contra hi
  simp [a.fresh i (by omega)] at h

/-- What is outstanding after an allocation is the new value or was outstanding before. -/
theorem get_alloc_eq_some {a : Arena α} {x y : α} {i : Nat} (h : (a.alloc x).get i = some y) :
    (i = a.next ∧ y = x) ∨ a.get i = some y := by
  rw [get_alloc] at h
  split at h
  · exact .inl ⟨‹_›, (Option.some.inj h).symm⟩
  · exact .inr h

theorem get_alloc_of_get {a : Arena α} {x y : α} {i : Nat} (h : a.get i = some y) :
    (a.alloc x).get i = some y := by
  rw [get_alloc, if_neg (Nat.ne_of_lt (a.lt_next h)), h]

/-- What is outstanding after a change was outstanding before, changed or not. -/
theorem get_modify_eq_some {a : Arena α} {f : α → α} {i j : Nat} {y : α}
    (h : (a.modify i f).get j = some y) :
    ∃ x, a.get j = some x ∧ ((j = i ∧ y = f x) ∨ (j ≠ i ∧ y = x)) := by
  rw [get_modify] at h
  split at h
  · obtain ⟨x, hx, rfl⟩ := Option.map_eq_some_iff.mp h
    exact ⟨x, hx, .inl ⟨‹_›, rfl⟩⟩
  · exact ⟨y, h, .inr ⟨‹_›, rfl⟩⟩

theorem get_free_eq_some {a : Arena α} {i j : Nat} {y : α} (h : (a.free i).get j = some y) :
    j ≠ i ∧ a.get j = some y := by
  rw [get_free] at h
  split at h
  · cases h
  · exact ⟨‹_›, h⟩

theorem get_free_of_ne {a : Arena α} {i j : Nat} (h : j ≠ i) : (a.free i).get j = a.get j := by
  rw [get_free, if_neg h]

/-- A decidable property of everything outstanding can be decided: numbers from
`next` on are unused. -/
instance decidableForall (a : Arena α) (P : Nat → α → Prop) [∀ i x, Decidable (P i x)] :
    Decidable (∀ i x, a.get i = some x → P i x) :=
  decidable_of_iff (∀ i < a.next, ∀ x ∈ a.get i, P i x)
    ⟨fun h i x hx => h i (a.lt_next hx) x hx, fun h i _ x hx => h i x hx⟩

end Arena

end Foundation
