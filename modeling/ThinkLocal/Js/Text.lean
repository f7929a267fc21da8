import Mathlib.Data.List.DropRight
import Mathlib.Tactic

/-!
# Texts

Functions of JavaScript strings that look at single characters.
-/

namespace ThinkLocal.Js

/-- White space and line terminators of JavaScript. -/
def isWhiteSpace (c : Char) : Bool :=
  c ∈ ['\t', '\n', '\u000b', '\u000c', '\r', ' ', '\u00a0', '\u1680', '\u2028', '\u2029',
    '\u202f', '\u205f', '\u3000', '\ufeff'] || ('\u2000' ≤ c && c ≤ '\u200a')

/-- `text.trim()`. -/
def trim (text : String) : String :=
  String.ofList ((text.toList.dropWhile isWhiteSpace).reverse.dropWhile isWhiteSpace).reverse

/-- The characters without the white space at their end. -/
def trimEnd (text : List Char) : List Char := text.rdropWhile isWhiteSpace

/-- `text.includes(part)`. -/
def includes (text part : String) : Bool := part.toList <:+: text.toList

/-- The ranges of the letters and digits of ASCII. -/
theorem isAlphanum_eq (c : Char) :
    c.isAlphanum = ((decide (65 ≤ c.val ∧ c.val ≤ 90) || (97 ≤ c.val && c.val ≤ 122)) ||
      (48 ≤ c.val && c.val ≤ 57)) := rfl

/-! ## Trimming -/

theorem trim_eq (text : String) :
    trim text = String.ofList (trimEnd (text.toList.dropWhile isWhiteSpace)) := rfl

/-- White space after a character that is none does not reach it. -/
theorem trimEnd_append {c : Char} (hc : isWhiteSpace c = false) (start rest : List Char) :
    trimEnd (start ++ c :: rest) = start ++ c :: trimEnd rest := by
  unfold trimEnd
  have hlast : ¬ isWhiteSpace c = true := by simp [hc]
  induction rest using List.reverseRecOn with
  | nil => exact List.rdropWhile_concat_neg _ _ _ hlast
  | append_singleton rest last ih =>
      rw [← List.cons_append, ← List.append_assoc]
      by_cases hspace : isWhiteSpace last = true
      · rw [List.rdropWhile_concat_pos _ _ _ hspace, List.rdropWhile_concat_pos _ _ _ hspace, ih]
      · rw [List.rdropWhile_concat_neg _ _ _ hspace, List.rdropWhile_concat_neg _ _ _ hspace]
        simp

end ThinkLocal.Js
