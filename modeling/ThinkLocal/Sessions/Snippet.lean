import ThinkLocal.Foundation.Documents
import ThinkLocal.Js.Data
import ThinkLocal.Js.Text

/-!
# Snippets

`snippet` of `recovery-generator.ts`: white space is collapsed and a long text is cut.  A snippet
is on one line; what of a text it shows is told by lengths in code units.
-/

namespace ThinkLocal.Sessions

open Foundation Js
open Data (utf16Length)

/-- `text.replace(/\s+/g, ' ')`, after a character of white space or not. -/
def replaceSpaces (space : Bool) : List Char → List Char
  | [] => []
  | c :: rest =>
      if isWhiteSpace c then
        if space then replaceSpaces true rest else ' ' :: replaceSpaces true rest
      else c :: replaceSpaces false rest

def collapse (text : String) : String := trim (String.ofList (replaceSpaces false text.toList))

/-- `text.slice(0, n)`, in code units; half of a surrogate pair is the replacement character. -/
def sliceTo : ℕ → List Char → List Char
  | _, [] => []
  | 0, _ :: _ => []
  | n + 1, c :: rest =>
      if c.toNat < 65536 then c :: sliceTo n rest
      else
        match n with
        | 0 => ['\ufffd']
        | n + 1 => c :: sliceTo n rest

def snippet (text : String) (max : ℕ) : String :=
  let collapsed := collapse text
  if utf16Length collapsed ≤ max then collapsed
  else String.ofList (sliceTo (max - 1) collapsed.toList) ++ "…"

/-- The code units of characters. -/
def unitCount (l : List Char) : ℕ := utf16Length (String.ofList l)

/-- A word stands in a text, its white space collapsed, and ends before the text is cut. -/
def Shows (word : List Char) (max : ℕ) (text : String) : Prop :=
  ∃ before after, (collapse text).toList = before ++ word ++ after ∧
    (unitCount (before ++ word) < max ∨ unitCount (before ++ word ++ after) ≤ max)

section Laws

variable {word l l' : List Char} {c : Char} {n max : ℕ} {text : String}

/-! ## White space -/

theorem mem_replaceSpaces {space : Bool} (h : c ∈ replaceSpaces space l) :
    c = ' ' ∨ isWhiteSpace c = false := by
  induction l generalizing space with
  | nil => cases h
  | cons d l ih =>
      rw [replaceSpaces] at h
      split_ifs at h with hd hspace
      · exact ih h
      · rcases List.mem_cons.mp h with rfl | h
        · exact .inl rfl
        · exact ih h
      · rcases List.mem_cons.mp h with rfl | h
        · exact .inr (Bool.eq_false_of_not_eq_true hd)
        · exact ih h

theorem mem_collapse (h : c ∈ (collapse text).toList) : c = ' ' ∨ isWhiteSpace c = false := by
  rw [collapse, trim, String.toList_ofList, String.toList_ofList, List.mem_reverse] at h
  have hdropped := (List.dropWhile_suffix _).subset h
  exact mem_replaceSpaces ((List.dropWhile_suffix _).subset (List.mem_reverse.mp hdropped))

/-! ## Slices -/

theorem unitCount_cons (c : Char) (l : List Char) :
    unitCount (c :: l) = (if c.toNat < 65536 then 1 else 2) + unitCount l := by
  simp [unitCount, utf16Length]

theorem unitCount_pos (hne : l ≠ []) : 1 ≤ unitCount l := by
  obtain ⟨c, rest, rfl⟩ := List.exists_cons_of_ne_nil hne
  rw [unitCount_cons]
  split <;> omega

/-- A slice is the longest start of the text that is short enough, and maybe half a pair. -/
theorem sliceTo_spec (n : ℕ) (l : List Char) :
    ∃ kept half, sliceTo n l = kept ++ half ∧ (half = [] ∨ half = ['\ufffd']) ∧
      ∀ start, start <+: kept ↔ start <+: l ∧ unitCount start ≤ n := by
  -- a character that fits is kept, and the starts with it are one longer
  have hstep : ∀ {c : Char} {rest kept : List Char} {n m : ℕ},
      m = n + (if c.toNat < 65536 then 1 else 2) →
      (∀ start, start <+: kept ↔ start <+: rest ∧ unitCount start ≤ n) →
      ∀ start, start <+: c :: kept ↔ start <+: c :: rest ∧ unitCount start ≤ m := by
    intro c rest kept n m hm hkept start
    cases start with
    | nil => simp [unitCount, utf16Length]
    | cons d start =>
        rw [List.cons_prefix_cons, List.cons_prefix_cons, hkept, unitCount_cons]
        constructor
        · rintro ⟨rfl, hstart, hcount⟩
          exact ⟨⟨rfl, hstart⟩, by omega⟩
        · rintro ⟨⟨rfl, hstart⟩, hcount⟩
          exact ⟨rfl, hstart, by omega⟩
  -- nothing is kept if the first character is too much
  have hnone : ∀ {rest : List Char} {n : ℕ}, (∀ start, start ≠ [] → start <+: rest →
      n < unitCount start) → ∀ start, start <+: [] ↔ start <+: rest ∧ unitCount start ≤ n := by
    intro rest n hlong start
    rw [List.prefix_nil]
    constructor
    · intro h
      rw [h]
      exact ⟨List.nil_prefix, Nat.zero_le _⟩
    · rintro ⟨hstart, hcount⟩
      by_contra hne
      exact absurd hcount (Nat.not_le.mpr (hlong start hne hstart))
  fun_induction sliceTo n l with
  | case1 n =>
      exact ⟨[], [], rfl, .inl rfl, hnone fun start hne hstart =>
        absurd (List.prefix_nil.mp hstart) hne⟩
  | case2 c rest =>
      exact ⟨[], [], rfl, .inl rfl, hnone fun start hne _ => unitCount_pos hne⟩
  | case3 n c rest hsmall ih =>
      obtain ⟨kept, half, heq, hhalf, hkept⟩ := ih
      exact ⟨c :: kept, half, congrArg (List.cons c) heq, hhalf, hstep (by rw [if_pos hsmall]) hkept⟩
  | case4 c rest hbig =>
      -- only the first half of the pair fits, and it is no character
      refine ⟨[], ['\ufffd'], rfl, .inr rfl, hnone fun start hne hstart => ?_⟩
      obtain ⟨d, tail, rfl⟩ := List.exists_cons_of_ne_nil hne
      obtain ⟨rfl, -⟩ := List.cons_prefix_cons.mp hstart
      rw [unitCount_cons, if_neg hbig]
      omega
  | case5 c rest hbig n ih =>
      obtain ⟨kept, half, heq, hhalf, hkept⟩ := ih
      exact ⟨c :: kept, half, congrArg (List.cons c) heq, hhalf, hstep (by rw [if_neg hbig]) hkept⟩

theorem infix_sliceTo (hword : word ≠ []) (hhalf : '\ufffd' ∉ word) :
    word <:+: sliceTo n l ↔
      ∃ before after, l = before ++ word ++ after ∧ unitCount (before ++ word) ≤ n := by
  obtain ⟨kept, half, heq, hhalves, hkept⟩ := sliceTo_spec n l
  have hsame : word <:+: sliceTo n l ↔ word <:+: kept := by
    rw [heq]
    rcases hhalves with rfl | rfl
    · rw [List.append_nil]
    · rw [infix_append_cons hhalf hword, List.infix_nil, or_iff_left hword]
  rw [hsame]
  constructor
  · rintro ⟨before, after, rfl⟩
    obtain ⟨⟨rest, hrest⟩, hcount⟩ := (hkept (before ++ word)).mp (List.prefix_append _ _)
    exact ⟨before, rest, hrest.symm, hcount⟩
  · rintro ⟨before, after, rfl, hcount⟩
    have hstart := (hkept (before ++ word)).mpr ⟨List.prefix_append _ _, hcount⟩
    exact (List.suffix_append before word).isInfix.trans hstart.isInfix

/-! ## Snippets -/

theorem mem_sliceTo (h : c ∈ sliceTo n l) : c ∈ l ∨ c = '\ufffd' := by
  obtain ⟨kept, half, heq, hhalf, hkept⟩ := sliceTo_spec n l
  rw [heq] at h
  rcases List.mem_append.mp h with h | h
  · exact .inl (((hkept kept).mp List.prefix_rfl).1.subset h)
  · rcases hhalf with rfl | rfl
    · cases h
    · exact .inr (List.mem_singleton.mp h)

theorem mem_snippet (h : c ∈ (snippet text max).toList) : c = ' ' ∨ isWhiteSpace c = false := by
  unfold snippet at h
  dsimp only at h
  split_ifs at h with hshort
  · exact mem_collapse h
  · rw [String.toList_append, String.toList_ofList] at h
    rcases List.mem_append.mp h with h | h
    · rcases mem_sliceTo h with h | rfl
      · exact mem_collapse h
      · exact .inr rfl
    · have hlast : "…".toList = ['…'] := rfl
      rw [hlast, List.mem_singleton] at h
      exact .inr (h ▸ rfl)

/-- A snippet has the words that the text shows. -/
theorem infix_snippet (hmax : 1 ≤ max) (hword : word ≠ []) (hhalf : '\ufffd' ∉ word)
    (hellipsis : '…' ∉ word) : word <:+: (snippet text max).toList ↔ Shows word max text := by
  have hcount : ∀ l : List Char, unitCount l = utf16Length (String.ofList l) := fun _ => rfl
  have hwhole : utf16Length (collapse text) = unitCount (collapse text).toList := by
    rw [hcount, String.ofList_toList]
  unfold snippet Shows
  dsimp only
  split_ifs with hshort
  · constructor
    · rintro ⟨before, after, heq⟩
      refine ⟨before, after, heq.symm, .inr ?_⟩
      rwa [heq, ← hwhole]
    · rintro ⟨before, after, heq, -⟩
      exact ⟨before, after, heq.symm⟩
  · rw [String.toList_append, String.toList_ofList]
    have hlast : "…".toList = ['…'] := rfl
    rw [hlast, infix_append_cons hellipsis hword, List.infix_nil, or_iff_left hword,
      infix_sliceTo hword hhalf]
    refine exists_congr fun before => exists_congr fun after => and_congr_right fun heq => ?_
    rw [← heq, ← hwhole]
    omega

end Laws

end ThinkLocal.Sessions
