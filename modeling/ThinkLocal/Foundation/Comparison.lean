import Mathlib.Data.Prod.Lex
import Mathlib.Data.Sum.Order
import Mathlib.Tactic

/-!
# Comparisons with a sign

A comparison gives -1, 0 or 1.  The sign of a lexicographic order is the first sign of its parts that is
not 0.  An element that is replaced only by better ones ends as the first of the best.
-/

namespace Foundation

section Order

variable {α β : Type*} [LinearOrder α] [LinearOrder β] {a b : α} {x y : β}

/-- Is `a` below, at or above `b`? -/
def order (a b : α) : ℤ := if a < b then -1 else if b < a then 1 else 0

@[simp] theorem order_self (a : α) : order a a = 0 := by simp [order]

theorem order_of_lt (h : a < b) : order a b = -1 := if_pos h

theorem order_of_gt (h : b < a) : order a b = 1 := by
  rw [order, if_neg h.not_gt, if_pos h]

theorem order_eq_zero_iff : order a b = 0 ↔ a = b := by
  rcases lt_trichotomy a b with h | rfl | h
  · simp [order_of_lt h, h.ne]
  · simp
  · simp [order_of_gt h, h.ne']

theorem order_pos_iff : 0 < order a b ↔ b < a := by
  rcases lt_trichotomy a b with h | rfl | h
  · simp [order_of_lt h, h.not_gt]
  · simp
  · simp [order_of_gt h, h]

theorem order_nonpos_iff : order a b ≤ 0 ↔ a ≤ b := by
  rw [← not_lt, order_pos_iff, not_lt]

theorem order_swap (a b : α) : order b a = - order a b := by
  rcases lt_trichotomy a b with h | rfl | h
  · rw [order_of_lt h, order_of_gt h, neg_neg]
  · simp
  · rw [order_of_gt h, order_of_lt h]

/-- The order of the images under a function that keeps the order. -/
theorem order_map {f : α → β} (hf : StrictMono f) (a b : α) : order (f a) (f b) = order a b := by
  simp only [order, hf.lt_iff_lt]

/-- The first part decides if its items differ. -/
theorem order_toLex :
    order (toLex (a, x)) (toLex (b, y)) = if a = b then order x y else order a b := by
  split_ifs with hab
  · subst hab
    simp only [order, Prod.Lex.toLex_lt_toLex, lt_irrefl, false_or, true_and]
  · rcases lt_or_gt_of_ne hab with h | h
    · rw [order_of_lt h, order_of_lt (Prod.Lex.toLex_lt_toLex.mpr (.inl h))]
    · rw [order_of_gt h, order_of_gt (Prod.Lex.toLex_lt_toLex.mpr (.inl h))]

theorem order_inl (a b : α) :
    order (Sum.inlₗ a : α ⊕ₗ β) (Sum.inlₗ b) = order a b := by
  simp only [order, Sum.Lex.inl_lt_inl_iff]

theorem order_inr (x y : β) :
    order (Sum.inrₗ x : α ⊕ₗ β) (Sum.inrₗ y) = order x y := by
  simp only [order, Sum.Lex.inr_lt_inr_iff]

theorem order_inl_inr (a : α) (y : β) : order (Sum.inlₗ a : α ⊕ₗ β) (Sum.inrₗ y) = -1 :=
  order_of_lt (Sum.Lex.inl_lt_inr a y)

theorem order_inr_inl (x : β) (b : α) : order (Sum.inrₗ x : α ⊕ₗ β) (Sum.inlₗ b) = 1 :=
  order_of_gt (Sum.Lex.inl_lt_inr b x)

theorem order_coe (a b : α) : order (a : WithTop α) b = order a b := by
  simp only [order, WithTop.coe_lt_coe]

theorem order_coe_top (a : α) : order (a : WithTop α) ⊤ = -1 := order_of_lt (WithTop.coe_lt_top a)

theorem order_top_coe (a : α) : order (⊤ : WithTop α) a = 1 := order_of_gt (WithTop.coe_lt_top a)

theorem order_nil_cons (a : α) (l : List α) : order [] (a :: l) = -1 :=
  order_of_lt (List.nil_lt_cons a l)

theorem order_cons_nil (a : α) (l : List α) : order (a :: l) [] = 1 :=
  order_of_gt (List.nil_lt_cons a l)

theorem order_cons (a b : α) (l l' : List α) :
    order (a :: l) (b :: l') = if a = b then order l l' else order a b := by
  split_ifs with hab
  · subst hab
    rcases lt_trichotomy l l' with h | rfl | h
    · rw [order_of_lt h, order_of_lt (List.cons_lt_cons_self.mpr h)]
    · rw [order_self, order_self]
    · rw [order_of_gt h, order_of_gt (List.cons_lt_cons_self.mpr h)]
  · rcases lt_or_gt_of_ne hab with h | h
    · rw [order_of_lt h, order_of_lt (List.cons_lt_cons_iff.mpr (.inl h))]
    · rw [order_of_gt h, order_of_gt (List.cons_lt_cons_iff.mpr (.inl h))]

theorem order_list_map {f : α → β} (hf : StrictMono f) (l l' : List α) :
    order (l.map f) (l'.map f) = order l l' := by
  induction l generalizing l' with
  | nil =>
      cases l' with
      | nil => simp
      | cons b l' => rw [List.map_nil, List.map_cons, order_nil_cons, order_nil_cons]
  | cons a l ih =>
      cases l' with
      | nil => rw [List.map_nil, List.map_cons, order_cons_nil, order_cons_nil]
      | cons b l' =>
          simp only [List.map_cons, order_cons, ih, order_map hf, hf.injective.eq_iff]

end Order

/-! ## The first of the best -/

section Best

variable {α κ : Type*} [LinearOrder κ] {key : α → κ} {first : α} {l : List α}

/-- An item of the list that none exceeds, and that exceeds all before it. -/
def IsFirstMax (key : α → κ) (l : List α) (best : α) : Prop :=
  ∃ before after, l = before ++ best :: after ∧ (∀ a ∈ before, key a < key best) ∧
    ∀ a ∈ after, key a ≤ key best

theorem IsFirstMax.mem {best : α} (h : IsFirstMax key l best) : best ∈ l := by
  obtain ⟨before, after, rfl, -⟩ := h
  simp

theorem IsFirstMax.le {best a : α} (h : IsFirstMax key l best) (ha : a ∈ l) :
    key a ≤ key best := by
  obtain ⟨before, after, rfl, hbefore, hafter⟩ := h
  rcases List.mem_append.mp ha with ha | ha
  · exact (hbefore a ha).le
  · rcases List.mem_cons.mp ha with rfl | ha
    · exact le_rfl
    · exact hafter a ha

/-- What is replaced only by what exceeds it ends as the first of the greatest. -/
theorem isFirstMax_foldl {better : α → α → α} (hbetter : ∀ best ∈ first :: l, ∀ a ∈ l,
    better best a = if key best < key a then a else best) :
    IsFirstMax key (first :: l) (l.foldl better first) := by
  induction l using List.reverseRecOn with
  | nil => exact ⟨[], [], rfl, fun _ h => (nomatch h), fun _ h => nomatch h⟩
  | append_singleton l a ih =>
      have hmem {b : α} (hb : b ∈ first :: l) : b ∈ first :: (l ++ [a]) := by
        rw [← List.cons_append]
        exact List.mem_append_left _ hb
      replace ih := ih fun best hbest b hb =>
        hbetter best (hmem hbest) b (List.mem_append_left _ hb)
      rw [List.foldl_append, List.foldl_cons, List.foldl_nil, hbetter _ (hmem ih.mem) a (by simp),
        ← List.cons_append]
      split_ifs with hlt
      · exact ⟨first :: l, [], rfl, fun b hb => (ih.le hb).trans_lt hlt, fun _ h => nomatch h⟩
      · obtain ⟨before, after, heq, hbefore, hafter⟩ := ih
        refine ⟨before, after ++ [a], ?_, hbefore, ?_⟩
        · rw [heq, List.append_assoc, List.cons_append]
        · intro b hb
          rcases List.mem_append.mp hb with hb | hb
          · exact hafter b hb
          · rw [List.mem_singleton.mp hb]
            exact not_lt.mp hlt

/-- The first of the best of some items, in the list of all. -/
theorem IsFirstMax.of_filter {p : α → Bool} {best : α} (h : IsFirstMax key (l.filter p) best) :
    ∃ before after, l = before ++ best :: after ∧ (∀ a ∈ before, p a = true → key a < key best) ∧
      ∀ a ∈ after, p a = true → key a ≤ key best := by
  obtain ⟨before, after, heq, hbefore, hafter⟩ := h
  obtain ⟨left, right, rfl, rfl, hright⟩ := List.filter_eq_append_iff.mp heq
  obtain ⟨skipped, rest, rfl, hskipped, -, rfl⟩ := List.filter_eq_cons_iff.mp hright
  refine ⟨left ++ skipped, rest, by rw [List.append_assoc], fun a ha hp => ?_, fun a ha hp =>
    hafter a (List.mem_filter.mpr ⟨ha, hp⟩)⟩
  rcases List.mem_append.mp ha with ha | ha
  · exact hbefore a (List.mem_filter.mpr ⟨ha, hp⟩)
  · exact absurd hp (hskipped a ha)

end Best

end Foundation
