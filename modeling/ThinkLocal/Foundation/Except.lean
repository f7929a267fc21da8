import Mathlib.Tactic

/-!
# Computations that may throw

When a sequence of computations in `Except` has a result, and what it is; the same of computations
in `Option` over a list.
-/

namespace Foundation.Except

universe u v

variable {ε : Type u} {α β : Type v} {x : Except ε α} {f : α → Except ε β} {b : β}

theorem bind_eq_ok_iff : (x >>= f) = .ok b ↔ ∃ a, x = .ok a ∧ f a = .ok b := by
  cases x with
  | error e =>
      constructor
      · intro h
        cases h
      · rintro ⟨a, h, -⟩
        cases h
  | ok a =>
      constructor
      · exact fun h => ⟨a, rfl, h⟩
      · rintro ⟨a', h, hf⟩
        cases h
        exact hf

theorem pure_eq_ok_iff {a a' : α} : (pure a : Except ε α) = .ok a' ↔ a = a' := by
  constructor
  · intro h
    cases h
    rfl
  · exact fun h => congrArg Except.ok h

theorem map_eq_ok_iff {g : α → β} : x.map g = .ok b ↔ ∃ a, x = .ok a ∧ g a = b := by
  cases x with
  | error e =>
      constructor
      · intro h
        cases h
      · rintro ⟨a, h, -⟩
        cases h
  | ok a =>
      constructor
      · intro h
        cases h
        exact ⟨a, rfl, rfl⟩
      · rintro ⟨a', h, rfl⟩
        cases h
        rfl

theorem mapError_eq_ok_iff {ε' : Type*} {f : ε → ε'} : x.mapError f = .ok a ↔ x = .ok a := by
  cases x with
  | error e => exact ⟨fun h => (nomatch h), fun h => nomatch h⟩
  | ok b => exact ⟨fun h => congrArg _ (Except.ok.inj h), fun h => congrArg _ (Except.ok.inj h)⟩

end Foundation.Except

namespace Foundation.Option

universe u v

variable {α : Type u} {β : Type v} {l : List α}

/-- A step that has a result where it may, and then a known one, is repeated. -/
theorem foldlM_eq_some_iff {f : β → α → Option β} {ok : α → Prop} {g : β → α → β}
    (h : ∀ b a b', f b a = some b' ↔ ok a ∧ b' = g b a) (b b' : β) :
    l.foldlM f b = some b' ↔ (∀ a ∈ l, ok a) ∧ b' = l.foldl g b := by
  induction l generalizing b with
  | nil => simp [eq_comm]
  | cons a l ih =>
      rw [List.foldlM_cons, List.foldl_cons, List.forall_mem_cons]
      constructor
      · intro hfold
        obtain ⟨next, hnext, hfold⟩ := Option.bind_eq_some_iff.mp hfold
        obtain ⟨hok, rfl⟩ := (h b a next).mp hnext
        obtain ⟨hall, heq⟩ := (ih _).mp hfold
        exact ⟨⟨hok, hall⟩, heq⟩
      · rintro ⟨⟨hok, hall⟩, heq⟩
        exact Option.bind_eq_some_iff.mpr ⟨g b a, (h b a _).mpr ⟨hok, rfl⟩, (ih _).mpr ⟨hall, heq⟩⟩

theorem mapM_eq_some_iff {f : α → Option β} {bs : List β} :
    l.mapM f = some bs ↔ (∀ a ∈ l, (f a).isSome) ∧ bs = l.filterMap f := by
  induction l generalizing bs with
  | nil =>
      rw [List.mapM_nil]
      exact ⟨fun h => ⟨fun _ ha => (nomatch ha), (Option.some.inj h).symm⟩,
        fun h => congrArg some h.2.symm⟩
  | cons a l ih =>
      rw [List.mapM_cons, List.forall_mem_cons]
      cases ha : f a with
      | none => exact ⟨fun h => (nomatch h), fun h => nomatch h.1.1⟩
      | some b =>
          rw [List.filterMap_cons_some ha]
          show ((l.mapM f).bind fun rest => some (b :: rest)) = some bs ↔ _
          constructor
          · intro h
            obtain ⟨rest, hrest, h⟩ := Option.bind_eq_some_iff.mp h
            obtain ⟨hall, rfl⟩ := ih.mp hrest
            exact ⟨⟨rfl, hall⟩, (Option.some.inj h).symm⟩
          · rintro ⟨⟨-, hall⟩, rfl⟩
            exact Option.bind_eq_some_iff.mpr ⟨_, ih.mpr ⟨hall, rfl⟩, rfl⟩

end Foundation.Option
