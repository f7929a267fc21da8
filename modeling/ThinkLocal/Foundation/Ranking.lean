import Mathlib.Tactic

/-!
# Rankings

The elements with the greatest score, and queues in the order of a rank.
-/

namespace Foundation

/-! ## Leaders of a ranking

A list is sorted by falling score and the elements that share the score of the first one are kept.
They are the elements that no other exceeds, and there is one unless the list is empty.
-/

section

variable {α : Type*} (score : α → ℤ)

/-- The stable sort by falling score. -/
def ranked (l : List α) : List α := l.mergeSort fun a b => score b ≤ score a

/-- The elements with the score of the first one. -/
def leaders (l : List α) : List α :=
  match ranked score l with
  | [] => []
  | best :: rest => (best :: rest).filter fun a => score a = score best

variable {score} {l : List α} {a : α}

variable (score) in
@[simp] theorem mem_ranked : a ∈ ranked score l ↔ a ∈ l := List.mem_mergeSort

variable (score) in
theorem pairwise_ranked (l : List α) :
    (ranked score l).Pairwise fun a b => score b ≤ score a := by
  have hsorted : (ranked score l).Pairwise fun a b => decide (score b ≤ score a) = true := by
    apply List.pairwise_mergeSort
    · intro a b c hab hbc
      rw [decide_eq_true_eq] at *
      exact hbc.trans hab
    · intro a b
      rw [Bool.or_eq_true, decide_eq_true_eq, decide_eq_true_eq]
      exact le_total _ _
  exact hsorted.imp fun h => of_decide_eq_true h

theorem mem_leaders : a ∈ leaders score l ↔ a ∈ l ∧ ∀ b ∈ l, score b ≤ score a := by
  have hsorted := pairwise_ranked score l
  simp only [← mem_ranked score (l := l)]
  unfold leaders
  cases hranked : ranked score l with
  | nil => simp
  | cons best rest =>
      rw [hranked, List.pairwise_cons] at hsorted
      have hbest : ∀ b ∈ best :: rest, score b ≤ score best := by
        intro b hb
        rcases List.mem_cons.mp hb with rfl | hb
        · exact le_rfl
        · exact hsorted.1 b hb
      rw [List.mem_filter, decide_eq_true_eq]
      refine and_congr_right fun ha => ?_
      constructor
      · intro heq b hb
        exact heq ▸ hbest b hb
      · intro hmax
        exact le_antisymm (hbest a ha) (hmax best List.mem_cons_self)

variable (score) in
@[simp] theorem leaders_nil : leaders score [] = [] := by
  simp [leaders, ranked]

variable (score) in
theorem leaders_ne_nil (h : l ≠ []) : leaders score l ≠ [] := by
  unfold leaders
  cases hranked : ranked score l with
  | nil =>
      obtain ⟨a, ha⟩ := List.exists_mem_of_ne_nil l h
      rw [← mem_ranked score, hranked] at ha
      cases ha
  | cons best rest =>
      dsimp only
      rw [List.filter_cons_of_pos (by simp)]
      exact List.cons_ne_nil _ _

end

/-! ## Queues by rank and arrival

A queue kept in order by inserting each newcomer before the first entry of lower rank.  Entries of
one rank stay in the order of their arrival, so the head of the queue is the first of the highest
rank.
-/

namespace PriorityQueue

variable {α ρ : Type*} [LinearOrder ρ] (rank : α → ρ) (arrival : α → ℕ)

/-- `x` comes before `y`: by a higher rank, or in the same rank by an earlier arrival. -/
def Before (x y : α) : Prop :=
  rank y < rank x ∨ rank x = rank y ∧ arrival x < arrival y

/-- Inserts before the first entry of lower rank, at the end if there is none. -/
def insert (x : α) (queue : List α) : List α :=
  match queue.findIdx? fun y => rank y < rank x with
  | none => queue ++ [x]
  | some i => queue.insertIdx i x

variable {rank arrival} {x y : α} {queue : List α}

@[simp] theorem insert_nil : insert rank x [] = [x] := rfl

theorem insert_cons : insert rank x (y :: queue) =
    if rank y < rank x then x :: y :: queue else y :: insert rank x queue := by
  unfold insert
  rw [List.findIdx?_cons]
  by_cases hlt : rank y < rank x
  · simp [hlt]
  · simp only [hlt, decide_false, if_false, Bool.false_eq_true]
    cases queue.findIdx? fun z => rank z < rank x <;> rfl

theorem insert_perm : (insert rank x queue).Perm (x :: queue) := by
  induction queue with
  | nil => rfl
  | cons y queue ih =>
      rw [insert_cons]
      split
      · rfl
      · exact (ih.cons y).trans (.swap x y queue)

theorem mem_insert {z : α} : z ∈ insert rank x queue ↔ z = x ∨ z ∈ queue :=
  insert_perm.mem_iff.trans List.mem_cons

theorem Before.trans_lt (h : Before rank arrival x y) {z : α} (hz : rank x < rank z) :
    Before rank arrival z y := by
  rcases h with hlt | ⟨heq, -⟩
  · exact .inl (hlt.trans hz)
  · exact .inl (heq ▸ hz)

/-- A newcomer keeps the queue in order. -/
theorem insert_pairwise (hqueue : queue.Pairwise (Before rank arrival))
    (hnew : ∀ y ∈ queue, arrival y < arrival x) :
    (insert rank x queue).Pairwise (Before rank arrival) := by
  induction queue with
  | nil => exact List.pairwise_singleton _ x
  | cons y queue ih =>
      obtain ⟨hy, hrest⟩ := List.pairwise_cons.mp hqueue
      rw [insert_cons]
      split
      case isTrue hlt =>
        refine List.pairwise_cons.mpr ⟨fun z hz => ?_, hqueue⟩
        rcases List.mem_cons.mp hz with rfl | hz
        · exact .inl hlt
        · exact (hy z hz).trans_lt hlt
      case isFalse hle =>
        refine List.pairwise_cons.mpr
          ⟨fun z hz => ?_, ih hrest fun z hz => hnew z (List.mem_cons_of_mem y hz)⟩
        rcases mem_insert.mp hz with rfl | hz
        · rcases (not_lt.mp hle).lt_or_eq with hlt | heq
          · exact .inl hlt
          · exact .inr ⟨heq.symm, hnew y List.mem_cons_self⟩
        · exact hy z hz

end PriorityQueue

end Foundation
