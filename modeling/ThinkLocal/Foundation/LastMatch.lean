import Mathlib.Tactic

/-!
# The last match of a list

A loop over a list that keeps the last element that satisfies a predicate.  Where the predicate has
at most one match, the loop finds it in every order of the list.
-/

namespace Foundation

variable {α : Type*} {p : α → Bool} {l l' : List α} {a : α}

def lastMatch (p : α → Bool) (l : List α) : Option α := (l.filter p).getLast?

/-- The list has at most one match. -/
def OneMatch (p : α → Bool) (l : List α) : Prop :=
  ∀ a ∈ l, ∀ b ∈ l, p a = true → p b = true → a = b

/-- The loop, with what has been found before. -/
theorem foldl_eq_lastMatch (l : List α) (found : Option α) :
    l.foldl (fun found a => if p a then some a else found) found = (lastMatch p l).or found := by
  induction l generalizing found with
  | nil => rfl
  | cons a l ih =>
      rw [List.foldl_cons, ih, lastMatch, lastMatch, List.filter_cons]
      by_cases ha : p a = true
      · rw [if_pos ha, if_pos ha, List.getLast?_cons]
        cases (l.filter p).getLast? <;> rfl
      · rw [if_neg ha, if_neg ha]

theorem mem_of_lastMatch (h : lastMatch p l = some a) : a ∈ l ∧ p a = true :=
  List.mem_filter.mp (List.mem_of_getLast? h)

theorem lastMatch_eq_none_iff : lastMatch p l = none ↔ ∀ a ∈ l, p a = false := by
  rw [lastMatch, List.getLast?_eq_none_iff, List.filter_eq_nil_iff]
  simp only [Bool.not_eq_true]

theorem lastMatch_eq_some_iff (hone : OneMatch p l) :
    lastMatch p l = some a ↔ a ∈ l ∧ p a = true := by
  constructor
  · exact mem_of_lastMatch
  · rintro ⟨hmem, hp⟩
    cases hlast : lastMatch p l with
    | none =>
        rw [lastMatch_eq_none_iff.mp hlast a hmem] at hp
        cases hp
    | some b =>
        obtain ⟨hb, hpb⟩ := mem_of_lastMatch hlast
        rw [hone a hmem b hb hp hpb]

/-- The order of the list does not matter. -/
theorem lastMatch_perm (hone : OneMatch p l) (hperm : l'.Perm l) :
    lastMatch p l' = lastMatch p l := by
  have hone' : OneMatch p l' := fun a ha b hb =>
    hone a (hperm.mem_iff.mp ha) b (hperm.mem_iff.mp hb)
  ext a
  rw [lastMatch_eq_some_iff hone, lastMatch_eq_some_iff hone', hperm.mem_iff]

/-! ## The last value -/

variable {β : Type*} {f : α → Option β}

/-- The last value of a partial function on a list. -/
def lastValue (f : α → Option β) (l : List α) : Option β := (l.filterMap f).getLast?

@[simp] theorem lastValue_nil : lastValue f [] = none := rfl

theorem lastValue_cons (a : α) (l : List α) :
    lastValue f (a :: l) = (lastValue f l).or (f a) := by
  unfold lastValue
  rw [List.filterMap_cons]
  cases f a with
  | none => exact Option.or_none.symm
  | some b =>
      rw [List.getLast?_cons]
      cases (l.filterMap f).getLast? <;> rfl

theorem lastValue_append (l l' : List α) :
    lastValue f (l ++ l') = (lastValue f l').or (lastValue f l) := by
  induction l with
  | nil => exact Option.or_none.symm
  | cons a l ih => rw [List.cons_append, lastValue_cons, lastValue_cons, ih, Option.or_assoc]

/-- The last value of a function that has a value at the matches. -/
theorem lastValue_eq_map_lastMatch (g : α → β) (l : List α)
    (hf : ∀ a ∈ l, f a = if p a then some (g a) else none) :
    lastValue f l = (lastMatch p l).map g := by
  unfold lastValue lastMatch
  rw [← List.getLast?_map]
  congr 1
  induction l with
  | nil => rfl
  | cons a l ih =>
      have hrest := ih fun b hb => hf b (List.mem_cons_of_mem _ hb)
      rw [List.filterMap_cons, hf a List.mem_cons_self, List.filter_cons]
      split_ifs
      · rw [hrest, List.map_cons]
      · exact hrest

theorem mem_of_lastValue {b : β} (h : lastValue f l = some b) : ∃ a ∈ l, f a = some b :=
  List.mem_filterMap.mp (List.mem_of_getLast? h)

end Foundation
