import Mathlib.Tactic

/-!
# A cell that keeps the freshest offer

A cell takes an offer if the offer beats what the cell holds.  An offer that is held is beaten by
fresher ones only.  What the cell may hold besides offers is left open: a start value may be beaten by
every offer, by some or by none.
-/

namespace Foundation

structure Freshness (Cell Offer : Type*) where
  beats : Offer → Cell → Bool
  held : Offer → Cell
  irrefl : ∀ a, beats a (held a) = false
  trans : ∀ {a b c}, beats a (held b) = true → beats b c = true → beats a c = true

namespace Freshness

variable {Cell Offer : Type*} (F : Freshness Cell Offer) {cell : Cell} {a b : Offer}
  {l l' : List Offer}

def take (cell : Cell) (a : Offer) : Cell := if F.beats a cell then F.held a else cell

def takeAll (cell : Cell) (l : List Offer) : Cell := l.foldl F.take cell

theorem takeAll_append (cell : Cell) (l l' : List Offer) :
    F.takeAll cell (l ++ l') = F.takeAll (F.takeAll cell l) l' := List.foldl_append

variable {F}

/-- An offer that is beaten is beaten by what the cell holds later on. -/
theorem beats_take (h : F.beats a cell = false) : F.beats a (F.take cell b) = false := by
  unfold take
  split_ifs with hb
  · rw [Bool.eq_false_iff] at h ⊢
    exact fun ha => h (F.trans ha hb)
  · exact h

theorem beats_takeAll (h : F.beats a cell = false) : F.beats a (F.takeAll cell l) = false := by
  induction l generalizing cell with
  | nil => exact h
  | cons b l ih => exact ih (beats_take h)

theorem beats_take_self : F.beats a (F.take cell a) = false := by
  unfold take
  split_ifs with ha
  · exact F.irrefl a
  · exact Bool.eq_false_iff.mpr ha

/-- No offer beats the cell that it was made to. -/
theorem beats_takeAll_of_mem (h : a ∈ l) : F.beats a (F.takeAll cell l) = false := by
  induction l generalizing cell with
  | nil => cases h
  | cons b l ih =>
      rcases List.mem_cons.mp h with rfl | h
      · have hheld : F.beats a (F.takeAll (F.take cell a) l) = false := beats_takeAll beats_take_self
        exact hheld
      · exact ih h

theorem takeAll_eq_self (h : ∀ a ∈ l, F.beats a cell = false) : F.takeAll cell l = cell := by
  induction l with
  | nil => rfl
  | cons a l ih =>
      have htake : F.take cell a = cell := if_neg (Bool.eq_false_iff.mp (h a List.mem_cons_self))
      have hrest := ih fun b hb => h b (List.mem_cons_of_mem _ hb)
      calc F.takeAll cell (a :: l) = F.takeAll (F.take cell a) l := rfl
        _ = cell := by rw [htake, hrest]

/-- Of offers that beat the same cells the first one decides. -/
theorem takeAll_cons_of_agree (h : ∀ b ∈ l, ∀ x, F.beats b x = F.beats a x) :
    F.takeAll cell (a :: l) = F.take cell a :=
  takeAll_eq_self fun b hb => (h b hb _).trans beats_take_self

/-- Two offers of which one is fresher may come in either order. -/
theorem take_comm (h : a = b ∨ F.beats a (F.held b) = true ∨ F.beats b (F.held a) = true) :
    F.take (F.take cell a) b = F.take (F.take cell b) a := by
  -- by the symmetry of the two offers
  have hfresher : ∀ {a b : Offer}, F.beats a (F.held b) = true →
      F.take (F.take cell a) b = F.take (F.take cell b) a := by
    intro a b hab
    have hba : F.beats b (F.held a) = false := by
      rw [Bool.eq_false_iff]
      exact fun hba => Bool.eq_false_iff.mp (F.irrefl a) (F.trans hab hba)
    by_cases ha : F.beats a cell = true
    · have hleft : F.take (F.take cell a) b = F.held a := by
        rw [take, take, if_pos ha, if_neg (Bool.eq_false_iff.mp hba)]
      have hright : F.beats a (F.take cell b) = true := by
        unfold take
        split_ifs
        · exact hab
        · exact ha
      rw [hleft, take, if_pos hright]
    · -- what the older offer beats, the fresher one beats, too
      have hb : F.beats b cell ≠ true := fun hb => ha (F.trans hab hb)
      simp only [take, if_neg ha, if_neg hb]
  rcases h with rfl | hab | hba
  · rfl
  · exact hfresher hab
  · exact (hfresher hba).symm

/-- Offers of which always one is fresher may come in any order. -/
theorem takeAll_perm (hperm : l.Perm l')
    (h : ∀ a ∈ l, ∀ b ∈ l, a = b ∨ F.beats a (F.held b) = true ∨ F.beats b (F.held a) = true) :
    F.takeAll cell l = F.takeAll cell l' :=
  hperm.foldl_eq' (fun a ha b hb _ => take_comm (h a ha b hb)) cell

end Freshness

end Foundation
