import Mathlib.Tactic

/-!
# Documents

The places at which a word stands in a list, the lines into which breaks cut it, and the lines
that begin with a mark.  A document is a list of lines that each end with a separator; it is
looked at line by line as long as the separator is a break and no part of the word.
-/

namespace Foundation

variable {α : Type*}

/-! ## Words -/

section Words

variable {word l l' : List α} {c : α}

/-- A word does not reach over an element that it does not have. -/
theorem prefix_append_cons (hc : c ∉ word) : word <+: l ++ c :: l' ↔ word <+: l := by
  refine ⟨fun h => ?_, fun h => h.trans (List.prefix_append _ _)⟩
  rcases List.prefix_or_prefix_of_prefix h (List.prefix_append l (c :: l')) with hshort | ⟨rest, rfl⟩
  · exact hshort
  · have hrest : rest <+: c :: l' := (List.prefix_append_right_inj l).mp h
    cases rest with
    | nil => rw [List.append_nil]
    | cons d rest =>
        obtain ⟨rfl, -⟩ := List.cons_prefix_cons.mp hrest
        exact absurd (List.mem_append_right _ List.mem_cons_self) hc

variable [DecidableEq α]

/-- The number of places at which a word starts. -/
def occurrences (word : List α) : List α → ℕ
  | [] => if word = [] then 1 else 0
  | c :: l => (if word <+: c :: l then 1 else 0) + occurrences word l

theorem occurrences_eq_zero (hword : word ≠ []) : occurrences word l = 0 ↔ ¬ word <:+: l := by
  induction l with
  | nil => simp [occurrences, hword]
  | cons c l ih =>
      rw [occurrences, Nat.add_eq_zero_iff, ih, List.infix_cons_iff, not_or]
      simp

theorem occurrences_append_cons (hc : c ∉ word) (hword : word ≠ []) (l l' : List α) :
    occurrences word (l ++ c :: l') = occurrences word l + occurrences word l' := by
  induction l with
  | nil =>
      have hno : ¬ word <+: c :: l' := by
        rw [← List.nil_append (c :: l'), prefix_append_cons hc, List.prefix_nil]
        exact hword
      simp [occurrences, hno, hword]
  | cons d l ih =>
      have hsame : word <+: d :: (l ++ c :: l') ↔ word <+: d :: l := prefix_append_cons (l := d :: l) hc
      rw [List.cons_append, occurrences, ih, occurrences]
      simp only [hsame]
      omega

/-- What cannot be reached over tells where a word stands. -/
theorem infix_append_cons (hc : c ∉ word) (hword : word ≠ []) :
    word <:+: l ++ c :: l' ↔ word <:+: l ∨ word <:+: l' := by
  have hsum := occurrences_append_cons hc hword l l'
  have hnone : ¬ word <:+: l ++ c :: l' ↔ ¬ word <:+: l ∧ ¬ word <:+: l' := by
    rw [← occurrences_eq_zero hword, ← occurrences_eq_zero hword, ← occurrences_eq_zero hword, hsum]
    omega
  rw [← not_iff_not, hnone, not_or]

/-- What has no element with which the word begins can stand in front. -/
theorem occurrences_append_of_notMem {first : α} {rest : List α} (h : first ∉ l) (l' : List α) :
    occurrences (first :: rest) (l ++ l') = occurrences (first :: rest) l' := by
  induction l with
  | nil => rfl
  | cons d l ih =>
      obtain ⟨hd, hl⟩ := not_or.mp (List.mem_cons.not.mp h)
      have hno : ¬ first :: rest <+: d :: (l ++ l') := fun hprefix =>
        hd (List.cons_prefix_cons.mp hprefix).1
      rw [List.cons_append, occurrences, if_neg hno, ih hl, Nat.zero_add]

end Words

/-! ## Lines -/

section Lines

variable {isBreak : α → Bool} {sep mark : α} {line l l' : List α} {lines : List (List α)}

/-- The lines of a document, each with its separator. -/
def document (sep : α) (lines : List (List α)) : List α := lines.flatMap (· ++ [sep])

theorem document_append (sep : α) (lines lines' : List (List α)) :
    document sep (lines ++ lines') = document sep lines ++ document sep lines' :=
  List.flatMap_append

theorem occurrences_document [DecidableEq α] {word : List α} (hsep : sep ∉ word) (hword : word ≠ []) :
    occurrences word (document sep lines) = (lines.map (occurrences word)).sum := by
  induction lines with
  | nil => simp [document, occurrences, hword]
  | cons line lines ih =>
      rw [document, List.flatMap_cons, List.append_assoc, List.singleton_append,
        occurrences_append_cons hsep hword, List.map_cons, List.sum_cons, ← ih]
      rfl

theorem infix_document (h : line ∈ lines) : line <:+: document sep lines := by
  obtain ⟨before, after, rfl⟩ := List.append_of_mem h
  refine ⟨document sep before, sep :: document sep after, ?_⟩
  simp [document]

theorem not_break_of_mem_splitOnP (h : line ∈ l.splitOnP isBreak) : ∀ c ∈ line, isBreak c = false := by
  induction l generalizing line with
  | nil =>
      obtain rfl : line = [] := by simpa using h
      exact fun _ hc => nomatch hc
  | cons d l ih =>
      rw [List.splitOnP_cons_eq_if_modifyHead] at h
      split at h
      case isTrue =>
        rcases List.mem_cons.mp h with rfl | h
        · exact fun _ hc => nomatch hc
        · exact ih h
      case isFalse hd =>
        obtain ⟨first, rest, hsplit⟩ := List.exists_cons_of_ne_nil (List.splitOnP_ne_nil isBreak l)
        rw [hsplit, List.modifyHead_cons] at h
        rcases List.mem_cons.mp h with rfl | h
        · intro c hc
          rcases List.mem_cons.mp hc with rfl | hc
          · exact Bool.eq_false_of_not_eq_true hd
          · exact ih (hsplit ▸ List.mem_cons_self) c hc
        · exact ih (hsplit ▸ List.mem_cons_of_mem first h)

theorem splitOnP_document (hsep : isBreak sep = true) :
    (document sep lines).splitOnP isBreak = lines.flatMap (List.splitOnP isBreak) ++ [[]] := by
  induction lines with
  | nil => simp [document]
  | cons line lines ih =>
      rw [document, List.flatMap_cons, List.append_assoc, List.singleton_append,
        List.splitOnP_append_cons _ _ hsep, List.flatMap_cons, List.append_assoc, ← ih]
      rfl

/-- A line that is put into a document is one of its lines if it has no break. -/
theorem mem_splitOnP_document (hsep : isBreak sep = true) (h : line ∈ lines) :
    line ∈ (document sep lines).splitOnP isBreak ↔ ∀ c ∈ line, isBreak c = false := by
  refine ⟨not_break_of_mem_splitOnP, fun hline => ?_⟩
  rw [splitOnP_document hsep]
  refine List.mem_append_left _ (List.mem_flatMap.mpr ⟨line, h, ?_⟩)
  rw [List.splitOnP_eq_singleton hline]
  exact List.mem_singleton_self line

theorem splitOnP_append (h : ∀ c ∈ l, isBreak c = false) (l' : List α) :
    (l ++ l').splitOnP isBreak = (l'.splitOnP isBreak).modifyHead (l ++ ·) := by
  induction l with
  | nil =>
      obtain ⟨first, rest, hsplit⟩ := List.exists_cons_of_ne_nil (List.splitOnP_ne_nil isBreak l')
      rw [List.nil_append, hsplit]
      rfl
  | cons d l ih =>
      obtain ⟨first, rest, hsplit⟩ := List.exists_cons_of_ne_nil (List.splitOnP_ne_nil isBreak l')
      rw [List.cons_append, List.splitOnP_cons_eq_if_modifyHead, if_neg (by simp [h d]),
        ih fun c hc => h c (List.mem_cons_of_mem d hc), hsplit]
      rfl

/-- The first line begins as the text does. -/
theorem head_of_splitOnP (hmark : isBreak mark = false) {first : List α} {rest : List (List α)}
    (h : l.splitOnP isBreak = first :: rest) : first.head? = some mark ↔ l.head? = some mark := by
  cases l with
  | nil =>
      obtain ⟨rfl, -⟩ := List.cons.inj h
      rfl
  | cons d l =>
      rw [List.splitOnP_cons_eq_if_modifyHead] at h
      split at h
      case isTrue hd =>
        obtain ⟨rfl, -⟩ := List.cons.inj h
        refine ⟨fun hnone => (nomatch hnone), fun hsome => ?_⟩
        obtain rfl : d = mark := Option.some.inj hsome
        exact absurd (hd.symm.trans hmark) Bool.noConfusion
      case isFalse =>
        obtain ⟨other, rest', hsplit⟩ := List.exists_cons_of_ne_nil (List.splitOnP_ne_nil isBreak l)
        rw [hsplit, List.modifyHead_cons] at h
        obtain ⟨rfl, -⟩ := List.cons.inj h
        rfl

/-! ## Marked lines -/

variable [DecidableEq α]

/-- The lines that begin with a mark. -/
def markedLines (isBreak : α → Bool) (mark : α) (l : List α) : List (List α) :=
  (l.splitOnP isBreak).filter fun line => line.head? = some mark

/-- The lines after the first that begin with a mark. -/
def markedAfter (isBreak : α → Bool) (mark : α) (l : List α) : List (List α) :=
  (l.splitOnP isBreak).tail.filter fun line => line.head? = some mark

theorem markedLines_document (hsep : isBreak sep = true) :
    markedLines isBreak mark (document sep lines) = lines.flatMap (markedLines isBreak mark) := by
  rw [markedLines, splitOnP_document hsep, List.filter_append, List.filter_flatMap]
  exact List.append_nil _

/-- A text behind the start of a line. -/
theorem markedLines_append {c : α} (h : ∀ d ∈ c :: l, isBreak d = false) (l' : List α) :
    markedLines isBreak mark (c :: l ++ l') =
      (if c = mark then [c :: l ++ (l'.splitOnP isBreak).headI] else []) ++
        markedAfter isBreak mark l' := by
  obtain ⟨first, rest, hsplit⟩ := List.exists_cons_of_ne_nil (List.splitOnP_ne_nil isBreak l')
  rw [markedLines, markedAfter, splitOnP_append h, hsplit, List.modifyHead_cons, List.filter_cons]
  by_cases hc : c = mark <;> simp [hc]

theorem markedAfter_of_oneLine (h : ∀ c ∈ l, isBreak c = false) : markedAfter isBreak mark l = [] := by
  rw [markedAfter, List.splitOnP_eq_singleton h]
  rfl

/-- A line after the first begins with the mark exactly if the mark follows a break. -/
theorem markedAfter_eq_nil (hmark : isBreak mark = false) :
    markedAfter isBreak mark l = [] ↔ ¬ ∃ c, isBreak c = true ∧ [c, mark] <:+: l := by
  induction l with
  | nil => simp [markedAfter]
  | cons d l ih =>
      obtain ⟨first, rest, hsplit⟩ := List.exists_cons_of_ne_nil (List.splitOnP_ne_nil isBreak l)
      have hrest : markedAfter isBreak mark l = rest.filter fun line => line.head? = some mark := by
        rw [markedAfter, hsplit, List.tail_cons]
      have hpair : ∀ c, [c, mark] <:+: d :: l ↔
          (c = d ∧ l.head? = some mark) ∨ [c, mark] <:+: l := by
        intro c
        rw [List.infix_cons_iff, List.cons_prefix_cons, List.singleton_prefix_iff_head?_eq_some]
      rw [markedAfter, List.splitOnP_cons_eq_if_modifyHead]
      -- a break begins a new line, and the line may begin with the mark
      cases hd : isBreak d with
      | true =>
          rw [if_pos rfl, List.tail_cons, hsplit, List.filter_cons]
          have hfirst := head_of_splitOnP hmark hsplit
          by_cases hhead : l.head? = some mark
          · have hbreak : ∃ c, isBreak c = true ∧ [c, mark] <:+: d :: l :=
              ⟨d, hd, (hpair d).mpr (.inl ⟨rfl, hhead⟩)⟩
            simp [hfirst.mpr hhead, hbreak]
          · have hsame : ∀ c, [c, mark] <:+: d :: l ↔ [c, mark] <:+: l := fun c =>
              (hpair c).trans (or_iff_right fun h => hhead h.2)
            rw [if_neg (by simpa using hfirst.not.mpr hhead), ← hrest, ih]
            simp only [hsame]
      | false =>
          rw [if_neg Bool.false_ne_true, hsplit, List.modifyHead_cons, List.tail_cons, ← hrest, ih]
          have hsame : ∀ c, isBreak c = true → ([c, mark] <:+: d :: l ↔ [c, mark] <:+: l) := by
            intro c hc
            refine (hpair c).trans (or_iff_right ?_)
            rintro ⟨rfl, -⟩
            exact absurd (hc.symm.trans hd) Bool.noConfusion
          exact not_congr (exists_congr fun c => and_congr_right fun hc => (hsame c hc).symm)

end Lines

end Foundation
