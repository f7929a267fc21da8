import ThinkLocal.Foundation.Documents
import ThinkLocal.Foundation.Except
import ThinkLocal.Js.Text
import ThinkLocal.Skills.SkillFiles

/-!
# The header of a Claude skill

`renderClaudeSkillMarkdown` writes the fields of a manifest behind their keys, one to a line, between
two lines of three dashes.  A reader takes the lines between the first two such lines and cuts each
at its first `": "`.  What separates lines is a parameter: the line feed, and whatever else the
reader breaks lines at.

A value that is read lies within one line, so it has no break; `header_read_iff` is the converse as
well.
-/

namespace ThinkLocal.Skills

open Foundation

/-! ## Reading a header -/

/-- What separates lines: the line feed at least, and nothing that is printable in ASCII. -/
structure LineBreaks where
  isBreak : Char → Bool
  newline : isBreak '\n' = true
  printable : ∀ c, ' ' ≤ c → c ≤ '~' → isBreak c = false

def LineBreaks.OneLine (b : LineBreaks) (text : String) : Prop :=
  ∀ c ∈ text.toList, b.isBreak c = false

instance (b : LineBreaks) (text : String) : Decidable (b.OneLine text) :=
  inferInstanceAs (Decidable (∀ c ∈ text.toList, b.isBreak c = false))

def dashes : List Char := ['-', '-', '-']

/-- The key and the value of a header line, cut at the first `": "`. -/
def cutField : List Char → Option (List Char × List Char)
  | ':' :: ' ' :: value => some ([], value)
  | c :: line => (cutField line).map fun p => (c :: p.1, p.2)
  | [] => none

def readField (line : List Char) : Option (String × String) :=
  (cutField line).map fun p => (String.ofList p.1, String.ofList p.2)

/-- The fields between the first two lines of three dashes, the first of which begins the text. -/
def readHeader (b : LineBreaks) (text : String) : Option (List (String × String)) :=
  match text.toList.splitOnP b.isBreak with
  | [] => none
  | first :: rest =>
      if first = dashes ∧ dashes ∈ rest then (rest.takeWhile (· ≠ dashes)).mapM readField
      else none

/-- The header that a manifest stands for. -/
def SkillManifest.header (m : SkillManifest) : List (String × String) :=
  [("name", m.name), ("version", m.version), ("origin", m.origin), ("source", "thinklocal-mesh"),
    ("capabilities", ", ".intercalate m.capabilities)]

/-! ## Lines -/

section Lines

variable {b : LineBreaks} {line key value : List Char}

theorem cutField_append (hkey : ':' ∉ key) :
    cutField (key ++ ':' :: ' ' :: value) = some (key, value) := by
  induction key with
  | nil => rfl
  | cons c key ih =>
      obtain ⟨hc, hrest⟩ := not_or.mp (List.mem_cons.not.mp hkey)
      rw [List.cons_append, cutField, ih hrest]
      · rfl
      · rintro value' rfl
        exact absurd rfl hc

/-- A value is a part of its line. -/
theorem mem_of_cutField (h : cutField line = some (key, value)) : ∀ c ∈ value, c ∈ line := by
  induction line generalizing key with
  | nil => cases h
  | cons d line ih =>
      unfold cutField at h
      split at h
      · next hline =>
          obtain ⟨rfl, rfl⟩ := Prod.mk.inj (Option.some.inj h)
          obtain ⟨rfl, rfl⟩ := List.cons.inj hline
          exact fun c hc => List.mem_cons_of_mem _ (List.mem_cons_of_mem _ hc)
      · next hline =>
          obtain ⟨rfl, rfl⟩ := List.cons.inj hline
          obtain ⟨⟨key', value'⟩, hcut, hpair⟩ := Option.map_eq_some_iff.mp h
          obtain ⟨-, rfl⟩ := Prod.mk.inj hpair
          exact fun c hc => List.mem_cons_of_mem _ (ih hcut c hc)
      · cases h

/-- A header line of the renderer. -/
def fieldLine (key value : String) : List Char := key.toList ++ ':' :: ' ' :: value.toList

theorem readField_fieldLine {key value : String} (hkey : ':' ∉ key.toList) :
    readField (fieldLine key value) = some (key, value) := by
  rw [readField, fieldLine, cutField_append hkey, Option.map_some, String.ofList_toList,
    String.ofList_toList]

theorem mem_of_readField {key value : String} (h : readField line = some (key, value)) :
    ∀ c ∈ value.toList, c ∈ line := by
  obtain ⟨⟨k, v⟩, hcut, hpair⟩ := Option.map_eq_some_iff.mp h
  obtain ⟨-, rfl⟩ := Prod.mk.inj hpair
  rw [String.toList_ofList]
  exact mem_of_cutField hcut

/-- Every value of a header that is read lies within a line. -/
theorem oneLine_of_readHeader {text : String} {fields : List (String × String)}
    (h : readHeader b text = some fields) : ∀ p ∈ fields, b.OneLine p.2 := by
  intro p hp
  unfold readHeader at h
  split at h
  · cases h
  · next first rest hsplit =>
      obtain ⟨_, hread⟩ := Option.ite_none_right_eq_some.mp h
      rw [(Option.mapM_eq_some_iff.mp hread).2] at hp
      obtain ⟨line, hline, hfield⟩ := List.mem_filterMap.mp hp
      have hmem : line ∈ text.toList.splitOnP b.isBreak := by
        rw [hsplit]
        exact List.mem_cons_of_mem _ ((List.takeWhile_prefix _).subset hline)
      exact fun c hc => not_break_of_mem_splitOnP hmem c (mem_of_readField hfield c hc)

end Lines

/-! ## The rendered header -/

section Rendered

variable {b : LineBreaks} {m : SkillManifest}

/-- The lines of the fields. -/
def SkillManifest.fieldLines (m : SkillManifest) : List (List Char) :=
  m.header.map fun p => fieldLine p.1 p.2

/-- The header as it is written. -/
def SkillManifest.headerText (m : SkillManifest) : String :=
  "\n".intercalate
    ["---", "name: " ++ m.name, "version: " ++ m.version, "origin: " ++ m.origin,
      "source: thinklocal-mesh", "capabilities: " ++ ", ".intercalate m.capabilities, "---", ""]

theorem renderClaudeSkillMarkdown_eq (m : SkillManifest) (prompt : Option String) :
    ∃ rest, renderClaudeSkillMarkdown m prompt = m.headerText ++ rest := by
  unfold renderClaudeSkillMarkdown
  dsimp only
  cases prompt.filter (· ≠ "") with
  | some text => exact ⟨text, rfl⟩
  | none => exact ⟨_, String.intercalate_cons_cons.trans (String.append_assoc ..)⟩

theorem toList_headerText (m : SkillManifest) :
    m.headerText.toList = document '\n' (dashes :: m.fieldLines ++ [dashes]) := by
  rw [SkillManifest.headerText, String.toList_intercalate]
  simp [document, SkillManifest.fieldLines, SkillManifest.header, fieldLine, dashes,
    List.intercalate_cons_cons]

/-- The lines of a document stay what they are in front of another text. -/
theorem splitOnP_document_append {isBreak : Char → Bool} {sep : Char} (hsep : isBreak sep = true)
    {lines : List (List Char)} (hlines : ∀ line ∈ lines, ∀ c ∈ line, isBreak c = false)
    (l : List Char) :
    (document sep lines ++ l).splitOnP isBreak = lines ++ l.splitOnP isBreak := by
  induction lines with
  | nil => rfl
  | cons line lines ih =>
      rw [document, List.flatMap_cons, List.append_assoc, List.append_assoc, List.singleton_append,
        List.splitOnP_append_cons _ _ hsep,
        List.splitOnP_eq_singleton (hlines line List.mem_cons_self), List.singleton_append,
        List.cons_append]
      exact congrArg (line :: ·) (ih fun other hother => hlines other (List.mem_cons_of_mem _ hother))

theorem oneLine_of_printable {text : String} (h : ∀ c ∈ text.toList, ' ' ≤ c ∧ c ≤ '~') :
    b.OneLine text := fun c hc => b.printable c (h c hc).1 (h c hc).2

theorem oneLine_of_all {text : String}
    (h : text.toList.all (fun c => ' ' ≤ c ∧ c ≤ '~') = true) : b.OneLine text :=
  oneLine_of_printable (by simpa using h)

theorem oneLine_of_isSkillName {name : String} (h : isSkillName name = true) : b.OneLine name := by
  apply oneLine_of_printable
  intro c hc
  have hall := (of_decide_eq_true h).2.2.2
  have hchar := List.all_eq_true.mp hall c hc
  simp only [Bool.or_eq_true, decide_eq_true_eq, Js.isAlphanum_eq, Bool.and_eq_true,
    UInt32.le_iff_toNat_le] at hchar
  rw [Char.le_def, Char.le_def, UInt32.le_iff_toNat_le, UInt32.le_iff_toNat_le]
  rcases hchar with (((((hrange | hrange) | hrange) | rfl) | rfl) | rfl)
  · exact ⟨le_trans (by decide) hrange.1, hrange.2.trans (by decide)⟩
  · exact ⟨le_trans (by decide) hrange.1, hrange.2.trans (by decide)⟩
  · exact ⟨le_trans (by decide) hrange.1, hrange.2.trans (by decide)⟩
  · decide
  · decide
  · decide

theorem oneLine_append {text text' : String} :
    b.OneLine (text ++ text') ↔ b.OneLine text ∧ b.OneLine text' := by
  simp only [LineBreaks.OneLine, String.toList_append, List.forall_mem_append]

theorem oneLine_intercalate {texts : List String} :
    b.OneLine (", ".intercalate texts) ↔ ∀ text ∈ texts, b.OneLine text := by
  induction texts with
  | nil => simp [LineBreaks.OneLine]
  | cons text texts ih =>
      cases texts with
      | nil => simp
      | cons next rest =>
          have hcomma : b.OneLine ", " := oneLine_of_all (by decide)
          rw [String.intercalate_cons_cons, oneLine_append, oneLine_append, ih,
            List.forall_mem_cons (a := text)]
          simp [hcomma]

theorem oneLine_header (hname : isSkillName m.name = true) :
    (∀ p ∈ m.header, b.OneLine p.2) ↔
      b.OneLine m.version ∧ b.OneLine m.origin ∧ ∀ c ∈ m.capabilities, b.OneLine c := by
  have hsource : b.OneLine "thinklocal-mesh" := oneLine_of_all (by decide)
  simp only [SkillManifest.header, List.forall_mem_cons, oneLine_intercalate,
    oneLine_of_isSkillName hname, hsource, true_and, List.not_mem_nil, false_imp_iff, implies_true,
    and_true]

theorem printable_key {p : String × String} (hp : p ∈ m.header) :
    ':' ∉ p.1.toList ∧ ∀ c ∈ p.1.toList, ' ' ≤ c ∧ c ≤ '~' := by
  have hkeys : ∀ key ∈ ["name", "version", "origin", "source", "capabilities"],
      ':' ∉ key.toList ∧ key.toList.all (fun c => ' ' ≤ c ∧ c ≤ '~') = true := by decide
  simp only [List.all_eq_true, decide_eq_true_eq] at hkeys
  apply hkeys
  have hmem : p.1 ∈ m.header.map Prod.fst := List.mem_map_of_mem hp
  exact hmem

theorem mapM_fieldLines (m : SkillManifest) : m.fieldLines.mapM readField = some m.header := by
  have hread : ∀ p ∈ m.header, readField (fieldLine p.1 p.2) = some p := fun p hp =>
    readField_fieldLine (printable_key hp).1
  rw [Option.mapM_eq_some_iff]
  constructor
  · intro line hline
    obtain ⟨p, hp, rfl⟩ := List.mem_map.mp hline
    rw [hread p hp]
    rfl
  · rw [SkillManifest.fieldLines, List.filterMap_map]
    exact ((List.filterMap_congr hread).trans List.filterMap_some).symm

/-- The rendered header is read as the fields of the manifest exactly if no value has a line
break. -/
theorem header_read_iff (b : LineBreaks) (m : SkillManifest) (prompt : Option String)
    (hname : isSkillName m.name = true) :
    readHeader b (renderClaudeSkillMarkdown m prompt) = some m.header ↔
      b.OneLine m.version ∧ b.OneLine m.origin ∧ ∀ c ∈ m.capabilities, b.OneLine c := by
  rw [← oneLine_header hname]
  constructor
  · exact oneLine_of_readHeader
  · intro hvalues
    have hfield : ∀ line ∈ m.fieldLines, ∀ c ∈ line, b.isBreak c = false := by
      intro line hline
      obtain ⟨p, hp, rfl⟩ := List.mem_map.mp hline
      have hkey : ∀ c ∈ p.1.toList, b.isBreak c = false := oneLine_of_printable (printable_key hp).2
      simp only [fieldLine, List.forall_mem_append, List.forall_mem_cons]
      exact ⟨hkey, b.printable ':' (by decide) (by decide), b.printable ' ' (by decide) (by decide),
        hvalues p hp⟩
    have hdashes : ∀ c ∈ dashes, b.isBreak c = false := by
      intro c hc
      obtain rfl : c = '-' := List.eq_of_mem_replicate (n := 3) hc
      exact b.printable '-' (by decide) (by decide)
    have hlines : ∀ line ∈ dashes :: m.fieldLines ++ [dashes], ∀ c ∈ line, b.isBreak c = false := by
      simp only [List.forall_mem_append, List.forall_mem_cons]
      exact ⟨⟨hdashes, hfield⟩, hdashes, fun _ h => nomatch h⟩
    obtain ⟨rest, hrest⟩ := renderClaudeSkillMarkdown_eq m prompt
    -- no line of a field is taken for the end of the header
    have hkept : ∀ line ∈ m.fieldLines, decide (line ≠ dashes) = true := by
      intro line hline
      obtain ⟨p, -, rfl⟩ := List.mem_map.mp hline
      refine decide_eq_true fun heq => ?_
      have hcolon : ':' ∈ fieldLine p.1 p.2 := List.mem_append_right _ List.mem_cons_self
      rw [heq] at hcolon
      exact absurd hcolon (by decide)
    unfold readHeader
    rw [hrest, String.toList_append, toList_headerText, splitOnP_document_append b.newline hlines,
      List.cons_append, List.cons_append, List.append_assoc, List.singleton_append]
    dsimp only
    rw [if_pos ⟨rfl, List.mem_append_right _ List.mem_cons_self⟩, List.takeWhile_append_of_pos hkept,
      List.takeWhile_cons_of_neg (by simp), List.append_nil, mapM_fieldLines]

end Rendered

/-! ## Two manifests -/

/-- Lines that end with a line feed only. -/
def lineFeeds : LineBreaks where
  isBreak c := c = '\n'
  newline := rfl
  printable c hlow _ := decide_eq_false fun h => absurd (h ▸ hlow) (by decide)

def sampleManifest (version : String) : SkillManifest where
  name := "db"
  version := version
  description := ""
  origin := "spiffe://peer"
  capabilities := ["db.read", "db.write"]
  format_version := .finite 1

theorem header_read_iff_sample :
    readHeader lineFeeds (renderClaudeSkillMarkdown (sampleManifest "1.0.0") (some "Ask.")) =
      some (sampleManifest "1.0.0").header :=
  (header_read_iff lineFeeds (sampleManifest "1.0.0") (some "Ask.") (by decide)).mpr
    ⟨oneLine_of_all (by decide), oneLine_of_all (by decide),
      List.forall_mem_cons.mpr ⟨oneLine_of_all (by decide),
        List.forall_mem_cons.mpr ⟨oneLine_of_all (by decide), fun _ hc => nomatch hc⟩⟩⟩

/-- A version with a line feed and a line of its own. -/
def forgedManifest : SkillManifest := sampleManifest "1\norigin: spiffe://other"

/-- The line of the version stands in front of the origin of the peer. -/
theorem origin_forged :
    isSkillName forgedManifest.name = true ∧
      readHeader lineFeeds (renderClaudeSkillMarkdown forgedManifest (some "Ask.")) =
        some [("name", "db"), ("version", "1"), ("origin", "spiffe://other"),
          ("origin", "spiffe://peer"), ("source", "thinklocal-mesh"),
          ("capabilities", "db.read, db.write")] ∧
      readHeader lineFeeds (renderClaudeSkillMarkdown forgedManifest (some "Ask.")) ≠
        some forgedManifest.header := by
  have hread : readHeader lineFeeds (renderClaudeSkillMarkdown forgedManifest (some "Ask.")) =
      some [("name", "db"), ("version", "1"), ("origin", "spiffe://other"),
        ("origin", "spiffe://peer"), ("source", "thinklocal-mesh"),
        ("capabilities", "db.read, db.write")] := by
    decide +kernel
  refine ⟨by decide, hread, fun h => ?_⟩
  have hlength := congrArg (Option.map List.length) (hread.symm.trans h)
  cases hlength

end ThinkLocal.Skills
