import Mathlib.Data.List.Basic
import Mathlib.Tactic

/-!
# Markup and text

A text is cut into markup and the text between it by a scanner that reads it character by character.  The
symbols of the text may be more than characters: a symbol that is to be filled in counts as one character
of the text.  Whatever is filled in between the markup leaves the markup as it is, if it does not open
markup itself.

* `content_tokens`: the tokens are the text
* `tokens_flatMap`: the tokens of a filled text are the filled tokens
* `markups_flatMap`: the markup stays as it is
-/

namespace Foundation

/-- Outside of markup a scanner waits for the character that opens it. -/
structure Scanner (σ : Type*) where
  text : σ
  opening : Char
  step : σ → Char → σ
  step_text : ∀ c, c ≠ opening → step text c = text

inductive Token (α : Type*)
  | text (content : List α)
  | markup (content : List α)
deriving DecidableEq

namespace Token

variable {α β : Type*}

def flatMap (g : α → List β) : Token α → Token β
  | text content => text (content.flatMap g)
  | markup content => markup (content.flatMap g)

def content : Token α → List α
  | text content => content
  | markup content => content

/-- No token for an empty text. -/
def ofText (content : List α) : List (Token α) := if content = [] then [] else [text content]

/-- The texts between the markup. -/
def texts (tokens : List (Token α)) : List (List α) :=
  tokens.filterMap fun
    | text content => some content
    | markup _ => none

/-- The contents of the markup. -/
def markups (tokens : List (Token α)) : List (List α) :=
  tokens.filterMap fun
    | text _ => none
    | markup content => some content

theorem mem_texts {content : List α} {tokens : List (Token α)} :
    content ∈ texts tokens ↔ text content ∈ tokens := by
  rw [texts, List.mem_filterMap]
  constructor
  · rintro ⟨token, hmem, htoken⟩
    cases token with
    | text content' => exact Option.some.inj htoken ▸ hmem
    | markup content' => cases htoken
  · exact fun hmem => ⟨_, hmem, rfl⟩

theorem flatMap_ofText {g : α → List β} (hg : ∀ a, g a ≠ []) (content : List α) :
    (ofText content).map (flatMap g) = ofText (content.flatMap g) := by
  cases content with
  | nil => rfl
  | cons a content =>
      have hne : (a :: content).flatMap g ≠ [] := by
        rw [List.flatMap_cons]
        exact List.append_ne_nil_of_left_ne_nil (hg a) _
      rw [ofText, ofText, if_neg (List.cons_ne_nil a content), if_neg hne]
      rfl

end Token

namespace Scanner

variable {σ α : Type*} [DecidableEq σ] (S : Scanner σ) (char : α → Char)

/-- What was read: the state, the content of the current token and the tokens before it. -/
structure Reading (σ α : Type*) where
  mode : σ
  current : List α
  tokens : List (Token α)

def start : Reading σ α := ⟨S.text, [], []⟩

/-- One more symbol. -/
def read (r : Reading σ α) (a : α) : Reading σ α :=
  let mode := S.step r.mode (char a)
  if r.mode = S.text then
    if mode = S.text then ⟨S.text, r.current ++ [a], r.tokens⟩
    else ⟨mode, [a], r.tokens ++ Token.ofText r.current⟩
  else if mode = S.text then ⟨S.text, [], r.tokens ++ [.markup (r.current ++ [a])]⟩
  else ⟨mode, r.current ++ [a], r.tokens⟩

def finish (r : Reading σ α) : List (Token α) :=
  r.tokens ++ if r.mode = S.text then Token.ofText r.current else [.markup r.current]

/-- The markup and the text between it. -/
def tokens (l : List α) : List (Token α) := S.finish (l.foldl (S.read char) S.start)

/-- What is to be filled in stands outside of markup. -/
def InText (hole : α → Prop) : Reading σ α → List α → Prop
  | _, [] => True
  | r, a :: l => (hole a → r.mode = S.text) ∧ InText hole (S.read char r a) l

instance decidableInText (hole : α → Prop) [DecidablePred hole] :
    (r : Reading σ α) → (l : List α) → Decidable (S.InText char hole r l)
  | _, [] => isTrue trivial
  | r, a :: l =>
      have := decidableInText hole (S.read char r a) l
      inferInstanceAs (Decidable ((hole a → r.mode = S.text) ∧ _))

/-- What is filled in is not empty and does not open markup. -/
structure Fills (hole : α → Prop) (g : α → List Char) : Prop where
  plain : ∀ a, ¬ hole a → g a = [char a]
  nonempty : ∀ a, g a ≠ []
  text : ∀ a, hole a → ∀ c ∈ g a, c ≠ S.opening
  symbol : ∀ a, hole a → char a ≠ S.opening

variable {S char} {hole : α → Prop} {g g' : α → List Char} {r : Reading σ α} {l : List α} {a : α}

/-- All that was read. -/
def Reading.contents (r : Reading σ α) : List α := r.tokens.flatMap Token.content ++ r.current

theorem content_ofText (content : List α) : (Token.ofText content).flatMap Token.content = content := by
  cases content with
  | nil => rfl
  | cons a content => simp [Token.ofText, Token.content]

theorem contents_read (r : Reading σ α) (a : α) :
    (S.read char r a).contents = r.contents ++ [a] := by
  rw [read]
  split_ifs <;> simp [Reading.contents, content_ofText, Token.content]

/-- The tokens are the text. -/
theorem content_tokens (l : List α) : (S.tokens char l).flatMap Token.content = l := by
  have hfold (r : Reading σ α) : (l.foldl (S.read char) r).contents = r.contents ++ l := by
    induction l generalizing r with
    | nil => simp
    | cons a l ih => rw [List.foldl_cons, ih, contents_read, List.append_assoc, List.singleton_append]
  have hfinish (r : Reading σ α) : (S.finish r).flatMap Token.content = r.contents := by
    rw [finish, List.flatMap_append, Reading.contents]
    split_ifs <;> simp [content_ofText, Token.content]
  rw [tokens, hfinish, hfold]
  rfl

/-- A filled reading. -/
def Reading.flatMap (g : α → List Char) (r : Reading σ α) : Reading σ Char :=
  ⟨r.mode, r.current.flatMap g, r.tokens.map (Token.flatMap g)⟩

/-- Characters that open nothing are read as text. -/
theorem foldl_read_text {cs : List Char} (hcs : ∀ c ∈ cs, c ≠ S.opening) (r : Reading σ Char)
    (hr : r.mode = S.text) :
    cs.foldl (S.read id) r = ⟨S.text, r.current ++ cs, r.tokens⟩ := by
  induction cs generalizing r with
  | nil => rw [List.foldl_nil, List.append_nil, ← hr]
  | cons c cs ih =>
      obtain ⟨hc, hcs⟩ := List.forall_mem_cons.mp hcs
      have hread : S.read id r c = ⟨S.text, r.current ++ [c], r.tokens⟩ := by
        rw [read, if_pos hr, hr, id_eq, S.step_text c hc, if_pos rfl]
      rw [List.foldl_cons, hread, ih hcs _ rfl, List.append_assoc, List.singleton_append]

/-- Filling in commutes with reading one more symbol. -/
theorem foldl_read_fill (hg : S.Fills char hole g) (hr : hole a → r.mode = S.text) :
    (g a).foldl (S.read id) (r.flatMap g) = (S.read char r a).flatMap g := by
  by_cases ha : hole a
  · have hstep : S.step r.mode (char a) = S.text := by rw [hr ha, S.step_text _ (hg.symbol a ha)]
    rw [foldl_read_text (hg.text a ha) _ (hr ha), read, if_pos (hr ha), hstep, if_pos rfl]
    simp [Reading.flatMap]
  · obtain ⟨mode, current, tokens⟩ := r
    rw [hg.plain a ha, List.foldl_cons, List.foldl_nil, Reading.flatMap, read, read, id_eq]
    by_cases hmode : mode = S.text <;> by_cases hnext : S.step mode (char a) = S.text
    · simp [hmode, hmode ▸ hnext, Reading.flatMap, hg.plain a ha]
    · simp [hmode, hmode ▸ hnext, Reading.flatMap, hg.plain a ha, Token.flatMap_ofText hg.nonempty]
    · simp [hmode, hnext, Reading.flatMap, hg.plain a ha, Token.flatMap]
    · simp [hmode, hnext, Reading.flatMap, hg.plain a ha]

theorem foldl_read_flatMap (hg : S.Fills char hole g) (hl : S.InText char hole r l) :
    (l.flatMap g).foldl (S.read id) (r.flatMap g) = (l.foldl (S.read char) r).flatMap g := by
  induction l generalizing r with
  | nil => rfl
  | cons a l ih =>
      have hfill : (g a).foldl (S.read id) (r.flatMap g) = (S.read char r a).flatMap g :=
        foldl_read_fill hg hl.1
      rw [List.flatMap_cons, List.foldl_append, hfill, ih hl.2, List.foldl_cons]

theorem finish_flatMap (hg : ∀ a, g a ≠ []) (r : Reading σ α) :
    S.finish (r.flatMap g) = (S.finish r).map (Token.flatMap g) := by
  obtain ⟨mode, current, tokens⟩ := r
  rw [Reading.flatMap, finish, finish, List.map_append]
  by_cases hmode : mode = S.text
  · rw [if_pos hmode, if_pos hmode, Token.flatMap_ofText hg]
  · rw [if_neg hmode, if_neg hmode]
    rfl

/-- The tokens of a filled text are the filled tokens. -/
theorem tokens_flatMap (hg : S.Fills char hole g) (hl : S.InText char hole S.start l) :
    S.tokens id (l.flatMap g) = (S.tokens char l).map (Token.flatMap g) := by
  have hfold := foldl_read_flatMap hg hl
  rw [tokens, tokens, ← finish_flatMap hg.nonempty, ← hfold]
  rfl

/-- The markup read so far has nothing to fill in. -/
structure Plain (S : Scanner σ) (hole : α → Prop) (r : Reading σ α) : Prop where
  current : r.mode ≠ S.text → ∀ a ∈ r.current, ¬ hole a
  markup : ∀ m, .markup m ∈ r.tokens → ∀ a ∈ m, ¬ hole a

theorem notMem_ofText {m content : List α} : Token.markup m ∉ Token.ofText content := by
  rw [Token.ofText]
  split_ifs <;> simp

theorem Plain.read (h : S.Plain hole r) (hsymbol : ∀ a, hole a → char a ≠ S.opening)
    (hr : hole a → r.mode = S.text) : S.Plain hole (S.read char r a) := by
  rw [Scanner.read]
  split_ifs with htext hmode hmode
  · exact ⟨fun hne => absurd rfl hne, h.markup⟩
  · refine ⟨fun _ b hb hhole => ?_, fun m hm => h.markup m ?_⟩
    · rw [List.mem_singleton.mp hb] at hhole
      exact hmode (by rw [htext, S.step_text _ (hsymbol a hhole)])
    · exact (List.mem_append.mp hm).resolve_right notMem_ofText
  · refine ⟨fun hne => absurd rfl hne, fun m hm => ?_⟩
    rcases List.mem_append.mp hm with hm | hm
    · exact h.markup m hm
    · rw [Token.markup.inj (List.mem_singleton.mp hm)]
      intro b hb
      rcases List.mem_append.mp hb with hb | hb
      · exact h.current htext b hb
      · rw [List.mem_singleton.mp hb]
        exact fun hhole => htext (hr hhole)
  · refine ⟨fun _ b hb => ?_, h.markup⟩
    rcases List.mem_append.mp hb with hb | hb
    · exact h.current htext b hb
    · rw [List.mem_singleton.mp hb]
      exact fun hhole => htext (hr hhole)

theorem Plain.foldl (h : S.Plain hole r) (hsymbol : ∀ a, hole a → char a ≠ S.opening)
    (hl : S.InText char hole r l) : S.Plain hole (l.foldl (S.read char) r) := by
  induction l generalizing r with
  | nil => exact h
  | cons a l ih => exact ih (h.read hsymbol hl.1) hl.2

/-- No markup has anything to fill in. -/
theorem plain_of_mem_tokens (hsymbol : ∀ a, hole a → char a ≠ S.opening)
    (hl : S.InText char hole S.start l) {m : List α} (hm : .markup m ∈ S.tokens char l) :
    ∀ a ∈ m, ¬ hole a := by
  have hplain : S.Plain hole (l.foldl (S.read char) S.start) :=
    Plain.foldl ⟨fun hne => absurd rfl hne, fun _ h => (nomatch h)⟩ hsymbol hl
  rw [tokens, finish] at hm
  rcases List.mem_append.mp hm with hm | hm
  · exact hplain.markup m hm
  · split_ifs at hm with htext
    · exact absurd hm notMem_ofText
    · rw [Token.markup.inj (List.mem_singleton.mp hm)]
      exact hplain.current htext

/-- The characters of markup stay as they are. -/
theorem flatMap_markup (hg : S.Fills char hole g) (hl : S.InText char hole S.start l) {m : List α}
    (hm : .markup m ∈ S.tokens char l) : m.flatMap g = m.map char := by
  rw [← List.flatMap_singleton' (m.map char), List.flatMap_map]
  exact List.flatMap_congr fun a ha => hg.plain a (plain_of_mem_tokens hg.symbol hl hm a ha)

theorem markups_flatMap (hg : S.Fills char hole g) (hl : S.InText char hole S.start l) :
    Token.markups (S.tokens id (l.flatMap g)) =
      (Token.markups (S.tokens char l)).map fun m => m.map char := by
  rw [tokens_flatMap hg hl, Token.markups, Token.markups, List.filterMap_map, List.map_filterMap]
  refine List.filterMap_congr fun token htoken => ?_
  cases token with
  | text content => rfl
  | markup m => simp [Token.flatMap, flatMap_markup hg hl htoken]

end Scanner

end Foundation
