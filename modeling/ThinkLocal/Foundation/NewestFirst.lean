import Mathlib.Data.List.Sort
import Mathlib.Tactic
import Mathlib.Data.List.TakeWhile

/-!
# Lists by descending key

The stable order of a list by descending key, as a query with `ORDER BY key DESC` gives it:
what has the same key stays in the order of the list.  The last item of the list comes
after everything with at least its key, so a bounded prefix contains it exactly if there
are not too many of these.
-/

namespace Foundation

section

variable {α κ : Type*} [LinearOrder κ] (key : α → κ)

/-- The list by descending key. -/
def newestFirst (l : List α) : List α :=
  l.reverse.insertionSort fun a b => key b < key a

variable {key} {l : List α} {a : α} {n : ℕ}

theorem newestFirst_concat :
    newestFirst key (l ++ [a]) =
      (newestFirst key l).orderedInsert (fun a b => key b < key a) a := by
  simp [newestFirst]

theorem perm_newestFirst : (newestFirst key l).Perm l :=
  (List.perm_insertionSort _ _).trans (List.reverse_perm l)

theorem mem_newestFirst : a ∈ newestFirst key l ↔ a ∈ l :=
  perm_newestFirst.mem_iff

theorem pairwise_newestFirst : (newestFirst key l).Pairwise fun a b => key b ≤ key a := by
  induction l using List.reverseRecOn with
  | nil => simp [newestFirst]
  | append_singleton l a ih =>
      rw [newestFirst_concat]
      generalize newestFirst key l = sorted at ih
      -- the item goes in front of the first one that is older
      induction sorted with
      | nil => simp
      | cons b rest ihrest =>
          rw [List.orderedInsert_cons]
          rw [List.pairwise_cons] at ih
          split
          case isTrue hlt =>
            refine List.pairwise_cons.mpr ⟨?_, List.pairwise_cons.mpr ih⟩
            intro c hc
            rcases List.mem_cons.mp hc with rfl | hrest
            · exact hlt.le
            · exact (ih.1 c hrest).trans hlt.le
          case isFalse hle =>
            refine List.pairwise_cons.mpr ⟨?_, ihrest ih.2⟩
            intro c hc
            rcases (List.mem_orderedInsert _).mp hc with rfl | hrest
            · exact not_lt.mp hle
            · exact ih.1 c hrest

/-- Down a descending list, what has at least some key comes first. -/
theorem takeWhile_eq_filter {k : κ} (h : l.Pairwise fun a b => key b ≤ key a) :
    (l.takeWhile fun b => k ≤ key b) = l.filter fun b => k ≤ key b := by
  induction l with
  | nil => rfl
  | cons b rest ih =>
      rw [List.pairwise_cons] at h
      by_cases hk : k ≤ key b
      · simp [hk, ih h.2]
      · have hrest : (rest.filter fun c => k ≤ key c) = [] := by
          rw [List.filter_eq_nil_iff]
          intro c hc
          have hle := h.1 c hc
          simpa using (hle.trans_lt (not_le.mp hk))
        simp [hk, hrest]

/-- The last item is among the first `n` exactly if less than `n` items have at least its key. -/
theorem mem_take_newestFirst_concat (ha : a ∉ l) :
    a ∈ (newestFirst key (l ++ [a])).take n ↔ (l.countP fun b => key a ≤ key b) < n := by
  have hperm : (newestFirst key l).Perm l := perm_newestFirst
  -- in front of the item stand those that are at least as new
  have hfront : ((newestFirst key l).takeWhile fun b => ¬ key b < key a) =
      (newestFirst key l).filter fun b => key a ≤ key b := by
    have hsorted : (newestFirst key l).Pairwise fun a b => key b ≤ key a := pairwise_newestFirst
    simpa using takeWhile_eq_filter (k := key a) hsorted
  have hlength : ((newestFirst key l).filter fun b => key a ≤ key b).length =
      l.countP fun b => key a ≤ key b := by
    rw [← List.countP_eq_length_filter]
    exact hperm.countP_eq _
  rw [newestFirst_concat, List.orderedInsert_eq_take_drop, hfront]
  have hnotFront : a ∉ (newestFirst key l).filter fun b => key a ≤ key b := by
    intro hmem
    exact ha (hperm.mem_iff.mp (List.mem_of_mem_filter hmem))
  rw [List.take_append, List.mem_append, hlength]
  constructor
  · rintro (hfirst | hsecond)
    · exact absurd (List.mem_of_mem_take hfirst) hnotFront
    · by_contra hfull
      have hnone : n - (l.countP fun b => key a ≤ key b) = 0 := by omega
      rw [hnone, List.take_zero] at hsecond
      cases hsecond
  · intro hlt
    right
    obtain ⟨k, hk⟩ : ∃ k, n - (l.countP fun b => key a ≤ key b) = k + 1 := ⟨_, (by omega :
      n - (l.countP fun b => key a ≤ key b) = n - (l.countP fun b => key a ≤ key b) - 1 + 1)⟩
    rw [hk, List.take_succ_cons]
    exact List.mem_cons_self

end

/-! ## The newest of a list that was cut

The items of a list with the greatest keys, when only a part of the list is put in order: they are those
of the whole list exactly if what was left out does not come before the bound.
-/

variable {α κ : Type*} [LinearOrder κ] (key : α → κ)

/-- The result is a selection of the items with the greatest keys, in descending order. -/
structure Newest (items : List α) (n : ℕ) (result : List α) : Prop where
  selected : ∃ rest, (result ++ rest).Perm items ∧ ∀ a ∈ result, ∀ b ∈ rest, key b ≤ key a
  length : result.length = min n items.length
  sorted : result.Pairwise fun a b => key b ≤ key a

variable {key} {items kept dropped result : List α} {n : ℕ}

theorem Newest.perm {items' : List α} (hperm : items.Perm items') :
    Newest key items n result ↔ Newest key items' n result := by
  constructor
  · rintro ⟨⟨rest, hrest, hle⟩, hlength, hsorted⟩
    exact ⟨⟨rest, hrest.trans hperm, hle⟩, by rwa [← hperm.length_eq], hsorted⟩
  · rintro ⟨⟨rest, hrest, hle⟩, hlength, hsorted⟩
    exact ⟨⟨rest, hrest.trans hperm.symm, hle⟩, by rwa [hperm.length_eq], hsorted⟩

theorem length_newestFirst : (newestFirst key kept).length = kept.length :=
  perm_newestFirst.length_eq

/-- The first items are at least as new as a key that enough items reach. -/
theorem le_of_mem_take_newestFirst {k : κ} (h : n ≤ kept.countP fun a => k ≤ key a) {a : α}
    (ha : a ∈ (newestFirst key kept).take n) : k ≤ key a := by
  have hsorted : (newestFirst key kept).Pairwise fun a b => key b ≤ key a := pairwise_newestFirst
  have hfilter := takeWhile_eq_filter (k := k) hsorted
  have hlength : n ≤ ((newestFirst key kept).takeWhile fun a => k ≤ key a).length := by
    rw [hfilter, ← List.countP_eq_length_filter, perm_newestFirst.countP_eq]
    exact h
  have htake : (newestFirst key kept).take n =
      ((newestFirst key kept).takeWhile fun a => k ≤ key a).take n := by
    obtain ⟨rest, hrest⟩ := List.takeWhile_prefix (fun a => decide (k ≤ key a))
      (l := newestFirst key kept)
    conv_lhs => rw [← hrest]
    rw [List.take_append_of_le_length hlength]
  rw [htake] at ha
  simpa using List.mem_takeWhile_imp (List.mem_of_mem_take ha)

/-- The newest of the items that were kept are the newest of all exactly if no item that was dropped is
newer than one of them. -/
theorem newest_take_iff (henough : dropped ≠ [] → n ≤ kept.length) :
    Newest key (kept ++ dropped) n ((newestFirst key kept).take n) ↔
      ∀ b ∈ dropped, n ≤ kept.countP fun a => key b ≤ key a := by
  have hsplit : ((newestFirst key kept).take n ++ ((newestFirst key kept).drop n ++ dropped)).Perm
      (kept ++ dropped) := by
    rw [← List.append_assoc, List.take_append_drop]
    exact perm_newestFirst.append_right dropped
  constructor
  · rintro ⟨⟨rest, hrest, hle⟩, hlength, -⟩ b hb
    have hmem : b ∈ rest := by
      have hsame := (List.perm_append_left_iff _).mp (hrest.trans hsplit.symm)
      exact hsame.mem_iff.mpr (List.mem_append_right _ hb)
    have hn : n ≤ kept.length := henough (List.ne_nil_of_mem hb)
    -- the n items that were taken are all at least as new as the dropped one
    calc n = ((newestFirst key kept).take n).length := by
          rw [List.length_take, length_newestFirst, min_eq_left hn]
      _ = ((newestFirst key kept).take n).countP fun a => key b ≤ key a :=
          (List.countP_eq_length.mpr fun a ha => decide_eq_true (hle a ha b hmem)).symm
      _ ≤ (newestFirst key kept).countP fun a => key b ≤ key a :=
          (List.take_sublist n _).countP_le
      _ = kept.countP fun a => key b ≤ key a := perm_newestFirst.countP_eq _
  · intro h
    refine ⟨⟨_, hsplit, fun a ha b hb => ?_⟩, ?_, pairwise_newestFirst.sublist (List.take_sublist n _)⟩
    · -- what was not taken was either sorted behind or dropped
      rcases List.mem_append.mp hb with hb | hb
      · have hsorted : (newestFirst key kept).Pairwise fun a b => key b ≤ key a :=
          pairwise_newestFirst
        rw [← List.take_append_drop n (newestFirst key kept), List.pairwise_append] at hsorted
        exact hsorted.2.2 a ha b hb
      · exact le_of_mem_take_newestFirst (h b hb) ha
    · rw [List.length_take, length_newestFirst, List.length_append]
      rcases eq_or_ne dropped [] with rfl | hne
      · rfl
      · have hn := henough hne
        omega

end Foundation
