import Mathlib.Tactic
import Mathlib.Data.List.DropRight

/-!
# Texts cut at a separator

The segments of a text between the occurrences of a separator, and the text that segments
make.  Cutting and joining are inverse to each other where no segment contains the
separator.
-/

namespace Foundation

section

/-- The segments between the separators, as `text.split(sep)` gives them. -/
def segments (sep : Char) (text : String) : List String :=
  (text.toList.splitOn sep).map String.ofList

/-- The text of segments with the separator in between. -/
def joinSegments (sep : Char) (parts : List String) : String :=
  String.ofList ([sep].intercalate (parts.map String.toList))

variable {sep : Char} {text : String} {parts : List String}

theorem joinSegments_segments : joinSegments sep (segments sep text) = text := by
  have hinverse : (segments sep text).map String.toList = text.toList.splitOn sep := by
    simp [segments, Function.comp_def]
  rw [joinSegments, hinverse, List.intercalate_splitOn, String.ofList_toList]

theorem segments_joinSegments (hparts : ∀ part ∈ parts, sep ∉ part.toList) (hne : parts ≠ []) :
    segments sep (joinSegments sep parts) = parts := by
  have hlists : ∀ l ∈ parts.map String.toList, sep ∉ l := by
    simpa using hparts
  rw [segments, joinSegments, String.toList_ofList,
    List.splitOn_intercalate sep hlists (by simpa using hne), List.map_map]
  simp [Function.comp_def]

/-- Cutting a text that was joined cuts its parts. -/
theorem segments_joinSegments_eq_flatMap (hne : parts ≠ []) :
    segments sep (joinSegments sep parts) = parts.flatMap (segments sep) := by
  have hsplit : ∀ lists : List (List Char), lists ≠ [] →
      ([sep].intercalate lists).splitOn sep = lists.flatMap fun l => l.splitOn sep := by
    intro lists
    induction lists with
    | nil => exact fun h => absurd rfl h
    | cons l rest ih =>
        intro _
        cases rest with
        | nil => simp
        | cons next rest =>
            rw [List.intercalate_cons_cons, List.append_assoc, List.singleton_append,
              List.splitOn_append_cons_self, ih (List.cons_ne_nil _ _)]
            rfl
  rw [segments, joinSegments, String.toList_ofList, hsplit _ (by simpa using hne),
    List.flatMap_map, List.map_flatMap]
  rfl

theorem toList_joinSegments_cons {part : String} (hne : parts ≠ []) :
    (joinSegments sep (part :: parts)).toList =
      part.toList ++ sep :: (joinSegments sep parts).toList := by
  simp only [joinSegments, String.toList_ofList, List.map_cons]
  rw [List.intercalate_cons_of_ne_nil (by simpa using hne), List.append_assoc, List.singleton_append]

theorem joinSegments_singleton (part : String) : joinSegments sep [part] = part := by
  rw [joinSegments, List.map_singleton, List.intercalate_singleton, String.ofList_toList]

/-- A joined text begins with its first part, and a separator follows if anything does. -/
theorem exists_toList_joinSegments_cons (part : String) :
    ∃ rest, (joinSegments sep (part :: parts)).toList = part.toList ++ rest ∧
      (rest = [] ∨ rest.head? = some sep) := by
  by_cases hparts : parts = []
  · exact ⟨[], by rw [hparts, joinSegments_singleton, List.append_nil], .inl rfl⟩
  · exact ⟨_, toList_joinSegments_cons hparts, .inr rfl⟩

theorem toList_joinSegments_append {parts' : List String} (hne : parts ≠ []) (hne' : parts' ≠ []) :
    (joinSegments sep (parts ++ parts')).toList =
      (joinSegments sep parts).toList ++ sep :: (joinSegments sep parts').toList := by
  induction parts with
  | nil => exact absurd rfl hne
  | cons part rest ih =>
      rw [List.cons_append]
      by_cases hrest : rest = []
      · rw [hrest, List.nil_append, toList_joinSegments_cons hne', joinSegments_singleton]
      · rw [toList_joinSegments_cons (by simp [hrest]), toList_joinSegments_cons hrest, ih hrest,
          List.append_assoc, List.cons_append]

theorem segments_of_notMem (h : sep ∉ text.toList) : segments sep text = [text] := by
  rw [segments, List.splitOn_eq_singleton h, List.map_singleton, String.ofList_toList]

theorem mem_joinSegments {c : Char} (h : c ∈ (joinSegments sep parts).toList) :
    c = sep ∨ ∃ part ∈ parts, c ∈ part.toList := by
  rw [joinSegments, String.toList_ofList] at h
  induction parts with
  | nil => simp at h
  | cons part rest ih =>
      cases rest with
      | nil => exact .inr ⟨part, List.mem_cons_self, by simpa [List.intercalate] using h⟩
      | cons next rest =>
          have hsplit : c ∈ part.toList ∨ c = sep ∨
              c ∈ [sep].intercalate ((next :: rest).map String.toList) := by
            simpa [List.intercalate] using h
          rcases hsplit with hpart | hsep | hrest
          · exact .inr ⟨part, List.mem_cons_self, hpart⟩
          · exact .inl hsep
          · rcases ih hrest with hsep | ⟨part', hpart', hmem⟩
            · exact .inl hsep
            · exact .inr ⟨part', List.mem_cons_of_mem _ hpart', hmem⟩

theorem infix_joinSegments {part : String} (h : part ∈ parts) :
    part.toList <:+: (joinSegments sep parts).toList := by
  induction parts with
  | nil => cases h
  | cons first parts ih =>
      rcases List.mem_cons.mp h with rfl | h
      · obtain ⟨rest, heq, -⟩ : ∃ rest, (joinSegments sep (part :: parts)).toList =
            part.toList ++ rest ∧ _ := exists_toList_joinSegments_cons part
        exact heq ▸ List.infix_append' [] part.toList rest
      · rw [toList_joinSegments_cons (List.ne_nil_of_mem h)]
        exact (ih h).trans ((List.suffix_cons _ _).trans (List.suffix_append _ _)).isInfix

theorem mem_of_mem_segments {part : String} {c : Char} (h : part ∈ segments sep text)
    (hc : c ∈ part.toList) : c ∈ text.toList := by
  have hjoin : part.toList <:+: (joinSegments sep (segments sep text)).toList :=
    infix_joinSegments h
  rw [joinSegments_segments] at hjoin
  exact hjoin.subset hc

/-- A text before the first separator and the rest can be read off the whole. -/
theorem append_cons_injective {α : Type*} {c : α} {l l' k k' : List α} (hl : c ∉ l)
    (hl' : c ∉ l') (h : l ++ c :: k = l' ++ c :: k') : l = l' ∧ k = k' := by
  induction l generalizing l' with
  | nil =>
      cases l' with
      | nil => exact ⟨rfl, (List.cons.inj h).2⟩
      | cons a rest =>
          obtain ⟨rfl, -⟩ := List.cons.inj h
          exact absurd List.mem_cons_self hl'
  | cons a rest ih =>
      cases l' with
      | nil =>
          obtain ⟨rfl, -⟩ := List.cons.inj h
          exact absurd List.mem_cons_self hl
      | cons a' rest' =>
          obtain ⟨rfl, hrest⟩ := List.cons.inj h
          rw [List.mem_cons, not_or] at hl hl'
          obtain ⟨rfl, hk⟩ := ih hl.2 hl'.2 hrest
          exact ⟨rfl, hk⟩

/-! ## Lists joined by a separator -/

section Join

variable {α : Type*} {c : α} {parts parts' rest rest' : List (List α)}

/-- What stands before joined parts does not matter to whether they are the same. -/
theorem intercalate_append_congr (front : List (List α)) (hne : rest ≠ []) (hne' : rest' ≠ [])
    (h : [c].intercalate rest = [c].intercalate rest') :
    [c].intercalate (front ++ rest) = [c].intercalate (front ++ rest') := by
  induction front with
  | nil => exact h
  | cons part front ih =>
      rw [List.cons_append, List.cons_append, List.intercalate_cons_of_ne_nil (by simp [hne]),
        List.intercalate_cons_of_ne_nil (by simp [hne']), ih]

/-- A part with a separator can be cut there instead of next to it. -/
theorem exists_recut {part : List α} (htwo : 2 ≤ parts.length) (hpart : part ∈ parts)
    (hc : c ∈ part) : ∃ parts', parts' ≠ parts ∧ parts'.length = parts.length ∧
      [c].intercalate parts' = [c].intercalate parts := by
  obtain ⟨x, y, rfl⟩ := List.append_of_mem hc
  obtain ⟨front, back, rfl⟩ := List.append_of_mem hpart
  have hshift : ∀ u v w : List α, ∀ more : List (List α),
      [c].intercalate ((u ++ c :: v) :: w :: more) =
        [c].intercalate (u :: (v ++ c :: w) :: more) := by
    intro u v w more
    cases more <;> simp [List.intercalate_cons_cons]
  cases back with
  | cons next back =>
      refine ⟨front ++ x :: (y ++ c :: next) :: back, fun heq => ?_, by simp, ?_⟩
      · have hhead := (List.cons.inj (List.append_cancel_left heq)).1
        simpa using congrArg List.length hhead
      · exact intercalate_append_congr front (by simp) (by simp) (hshift x y next back).symm
  | nil =>
      -- the last part gives its beginning to the one before it
      rcases List.eq_nil_or_concat front with rfl | ⟨front, prev, rfl⟩
      · simp at htwo
      · refine ⟨front ++ [prev ++ c :: x, y], fun heq => ?_, by simp, ?_⟩
        · rw [List.concat_eq_append, List.append_assoc, List.singleton_append] at heq
          have hhead := (List.cons.inj (List.append_cancel_left heq)).1
          simpa using congrArg List.length hhead
        · rw [List.concat_eq_append, List.append_assoc, List.singleton_append]
          exact intercalate_append_congr front (by simp) (by simp) (hshift prev x y [])

variable [DecidableEq α]

/-- The separators in a joined list are those in between and those of the parts. -/
theorem count_intercalate (hne : parts ≠ []) :
    ([c].intercalate parts).count c + 1 = parts.length + (parts.map (List.count c)).sum := by
  induction parts with
  | nil => exact absurd rfl hne
  | cons part rest ih =>
      by_cases hrest : rest = []
      · rw [hrest, List.intercalate_singleton]
        simp [Nat.add_comm]
      · have hcount := ih hrest
        rw [List.intercalate_cons_of_ne_nil hrest, List.count_append, List.count_append,
          List.count_singleton_self, List.length_cons, List.map_cons, List.sum_cons]
        omega

/-- Parts without a separator are told by what they make, among as many others. -/
theorem eq_of_intercalate_eq (hparts : ∀ part ∈ parts, c ∉ part)
    (hlength : parts.length = parts'.length)
    (h : [c].intercalate parts = [c].intercalate parts') : parts = parts' := by
  by_cases hne : parts = []
  · rw [hne] at hlength
    rw [hne, List.length_eq_zero_iff.mp hlength.symm]
  have hne' : parts' ≠ [] := by
    rintro rfl
    exact hne (List.length_eq_zero_iff.mp hlength)
  -- the others have no separator either, since there are too few
  have hnone : (parts.map (List.count c)).sum = 0 := by
    refine List.sum_eq_zero fun n hn => ?_
    obtain ⟨part, hpart, rfl⟩ := List.mem_map.mp hn
    exact List.count_eq_zero.mpr (hparts part hpart)
  have hparts' : ∀ part ∈ parts', c ∉ part := by
    intro part hpart
    have hcount := count_intercalate (c := c) hne
    have hcount' := count_intercalate (c := c) hne'
    rw [h] at hcount
    have hle := List.single_le_sum (fun n _ => Nat.zero_le n) _
      (List.mem_map_of_mem (f := List.count c) hpart)
    exact List.count_eq_zero.mp (by omega)
  rw [← List.splitOn_intercalate c hparts hne, h, List.splitOn_intercalate c hparts' hne']

end Join

end

/-! ## Lines

Lists whose lines end with a separator: the complete lines of a list, and what is kept of them.
-/

variable {α β : Type*} [DecidableEq α] {c : α} {l l' : List α}

/-- Everything up to the last separator, that included. -/
def completeLines (c : α) (l : List α) : List α := l.rdropWhile fun a => decide (a ≠ c)

theorem completeLines_of_notMem (h : c ∉ l) : completeLines c l = [] := by
  refine List.rdropWhile_eq_nil_iff.mpr fun a ha => decide_eq_true ?_
  rintro rfl
  exact h ha

theorem completeLines_append (h : c ∉ l') : completeLines c (l ++ c :: l') = l ++ [c] := by
  induction l' using List.reverseRecOn with
  | nil => exact List.rdropWhile_concat_neg _ _ _ (by simp)
  | append_singleton rest a ih =>
      rw [List.mem_append, List.mem_singleton, not_or] at h
      have hdrop : decide (a ≠ c) = true := decide_eq_true (Ne.symm h.2)
      rw [← List.cons_append, ← List.append_assoc]
      exact (List.rdropWhile_concat_pos (fun a => decide (a ≠ c)) _ a hdrop).trans (ih h.1)

theorem completeLines_prefix : completeLines c l <+: l := List.rdropWhile_prefix _ l

/-- A list has no separator, or it can be cut behind the last one. -/
theorem notMem_or_split (c : α) (l : List α) :
    c ∉ l ∨ ∃ lines rest, l = lines ++ c :: rest ∧ c ∉ rest := by
  by_cases h : c ∈ l
  · obtain ⟨rest, lines, hreverse, hrest⟩ := List.eq_append_cons_of_mem (List.mem_reverse.mpr h)
    refine .inr ⟨lines.reverse, rest.reverse, ?_, by simpa using hrest⟩
    rw [← List.reverse_reverse l, hreverse]
    simp
  · exact .inl h

/-- Complete lines are none at all, or they end with a separator. -/
theorem eq_nil_or_concat_of_completeLines (h : completeLines c l = l) :
    l = [] ∨ ∃ lines, l = lines ++ [c] := by
  rcases notMem_or_split c l with hnot | ⟨lines, rest, rfl, hrest⟩
  · exact .inl (h.symm.trans (completeLines_of_notMem hnot))
  · exact .inr ⟨lines, h.symm.trans (completeLines_append hrest)⟩

theorem completeLines_completeLines : completeLines c (completeLines c l) = completeLines c l := by
  rcases notMem_or_split c l with hnot | ⟨lines, rest, rfl, hrest⟩
  · rw [completeLines_of_notMem hnot]
    rfl
  · rw [completeLines_append hrest]
    exact completeLines_append List.not_mem_nil

/-- The complete lines of a list that starts with complete lines. -/
theorem completeLines_append_of_completeLines (h : completeLines c l = l) :
    completeLines c (l ++ l') = l ++ completeLines c l' := by
  rcases notMem_or_split c l' with hnot | ⟨lines, rest, rfl, hrest⟩
  · rw [completeLines_of_notMem hnot, List.append_nil]
    rcases eq_nil_or_concat_of_completeLines h with rfl | ⟨lines, rfl⟩
    · exact completeLines_of_notMem hnot
    · rw [List.append_assoc, List.singleton_append, completeLines_append hnot]
  · rw [completeLines_append hrest, ← List.append_assoc, completeLines_append hrest,
      List.append_assoc]

/-- What is kept of the lines. -/
def keepLines (c : α) (keep : List α → Option β) (l : List α) : List β :=
  (l.splitOn c).filterMap keep

variable {keep : List α → Option β}

theorem keepLines_append :
    keepLines c keep (l ++ c :: l') = keepLines c keep l ++ keepLines c keep l' := by
  rw [keepLines, List.splitOn_append_cons_self, List.filterMap_append]
  rfl

/-- Nothing is kept of the empty text behind complete lines. -/
theorem keepLines_of_completeLines (hempty : keep [] = none) (h : completeLines c l = l) :
    keepLines c keep (l ++ l') = keepLines c keep l ++ keepLines c keep l' := by
  have hnil : keepLines c keep [] = [] := by simp [keepLines, hempty]
  rcases eq_nil_or_concat_of_completeLines h with rfl | ⟨lines, rfl⟩
  · rw [hnil]
    rfl
  · rw [List.append_assoc, List.singleton_append, keepLines_append, keepLines_append, hnil,
      List.append_nil]

end Foundation
