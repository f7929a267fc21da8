import Mathlib.Data.List.DropRight
import ThinkLocal.Foundation.Documents
import ThinkLocal.Foundation.Segments

/-!
# Paths of files

`resolve` and `basename` of `node:path` for paths with `/`.  A path that was resolved is the list of its
names; `..` takes the last name away without a look at the disk.
-/

namespace ThinkLocal.Js

open Foundation

/-- An absolute path by its names. -/
abbrev Path := List String

/-- The path that a name leads to. -/
def enter (path : Path) (name : String) : Path :=
  if name = "" ∨ name = "." then path
  else if name = ".." then path.dropLast
  else path ++ [name]

/-- `resolve(base, text)`. -/
def resolve (base : Path) (text : String) : Path :=
  (segments '/' text).foldl enter (if text.toList.head? = some '/' then [] else base)

/-- The text of an absolute path. -/
def absoluteText (path : Path) : String := "/" ++ joinSegments '/' path

/-- The names from one path to another, up to the last common directory and down. -/
def relativeNames : Path → Path → List String
  | [], target => target
  | source, [] => source.map fun _ => ".."
  | name :: source, name' :: target =>
      if name = name' then relativeNames source target
      else (name :: source).map (fun _ => "..") ++ name' :: target

/-- `relative(from, to)`. -/
def relative (source target : Path) : String := joinSegments '/' (relativeNames source target)

/-- `isAbsolute(text)`. -/
def isAbsolute (text : String) : Bool := text.toList.head? = some '/'

/-- `basename(text)`. -/
def basename (text : String) : String :=
  String.ofList <| (text.toList.rdropWhile fun c => c = '/').rtakeWhile fun c => c ≠ '/'

/-- A name that stands for itself. -/
def IsName (name : String) : Prop := '/' ∉ name.toList ∧ name ∉ ["", ".", ".."]

instance (name : String) : Decidable (IsName name) := by
  unfold IsName
  infer_instance

variable {base : Path} {name text : String}

theorem resolve_of_notMem (h : '/' ∉ name.toList) : resolve base name = enter base name := by
  have hhead : name.toList.head? ≠ some '/' := fun heq => h (List.mem_of_head? heq)
  rw [resolve, segments_of_notMem h, if_neg hhead]
  rfl

theorem resolve_of_isName (h : IsName name) : resolve base name = base ++ [name] := by
  have hother := h.2
  simp only [List.mem_cons, List.not_mem_nil, or_false, not_or] at hother
  rw [resolve_of_notMem h.1, enter, if_neg (not_or.mpr ⟨hother.1, hother.2.1⟩), if_neg hother.2.2]

theorem slash_notMem_basename : '/' ∉ (basename text).toList := by
  intro h
  rw [basename, String.toList_ofList] at h
  simpa using List.mem_rtakeWhile_imp h

/-- The other names lead to the directory itself or out of it. -/
theorem resolve_basename (h : ¬ IsName (basename text)) : resolve base (basename text) <+: base := by
  have hother : basename text ∈ ["", ".", ".."] := by
    by_contra hne
    exact h ⟨slash_notMem_basename, hne⟩
  simp only [List.mem_cons, List.not_mem_nil, or_false] at hother
  rw [resolve_of_notMem slash_notMem_basename, enter]
  rcases hother with heq | heq | heq <;> rw [heq]
  · exact List.prefix_rfl
  · exact List.prefix_rfl
  · exact List.dropLast_prefix base

/-! ## Resolved paths -/

theorem isName_of_mem_segments (h : name ∈ segments '/' text) (hname : name ∉ ["", ".", ".."]) :
    IsName name := by
  refine ⟨?_, hname⟩
  obtain ⟨chars, hchars, rfl⟩ := List.mem_map.mp h
  rw [String.toList_ofList]
  intro hslash
  have hsep : ('/' == '/') = false := not_break_of_mem_splitOnP hchars '/' hslash
  cases hsep

/-- A name of a resolved path is one of the base or of the text. -/
theorem mem_foldl_enter {names : List String} (h : name ∈ names.foldl enter base) :
    name ∈ base ∨ name ∈ names ∧ name ∉ ["", ".", ".."] := by
  induction names generalizing base with
  | nil => exact .inl h
  | cons first names ih =>
      rcases ih h with hbase | ⟨hmem, hname⟩
      · unfold enter at hbase
        split_ifs at hbase with hstay hup
        · exact .inl hbase
        · exact .inl (List.mem_of_mem_dropLast hbase)
        · rcases List.mem_append.mp hbase with hbase | hfirst
          · exact .inl hbase
          · obtain rfl := List.mem_singleton.mp hfirst
            refine .inr ⟨List.mem_cons_self, ?_⟩
            simp only [List.mem_cons, List.not_mem_nil, or_false, not_or]
            exact ⟨(not_or.mp hstay).1, (not_or.mp hstay).2, hup⟩
      · exact .inr ⟨List.mem_cons_of_mem first hmem, hname⟩

theorem mem_resolve (h : name ∈ resolve base text) :
    name ∈ base ∨ name ∈ segments '/' text ∧ name ∉ ["", ".", ".."] := by
  rcases mem_foldl_enter h with hbase | hmem
  · split_ifs at hbase
    · cases hbase
    · exact .inl hbase
  · exact .inr hmem

theorem isName_of_mem_resolve (hbase : ∀ name ∈ base, IsName name) (h : name ∈ resolve base text) :
    IsName name := by
  rcases mem_resolve h with hmem | ⟨hmem, hname⟩
  · exact hbase name hmem
  · exact isName_of_mem_segments hmem hname

theorem foldl_enter_of_isName {names : List String} (h : ∀ name ∈ names, IsName name) :
    names.foldl enter base = base ++ names := by
  induction names generalizing base with
  | nil => simp
  | cons first names ih =>
      have hfirst : enter base first = base ++ [first] := by
        have hname := h first List.mem_cons_self
        rw [← resolve_of_notMem hname.1, resolve_of_isName hname]
      rw [List.foldl_cons, hfirst, ih fun name hname => h name (List.mem_cons_of_mem first hname),
        List.append_assoc, List.singleton_append]

/-- A resolved path is resolved already. -/
theorem resolve_absoluteText {path : Path} (h : ∀ name ∈ path, IsName name) :
    resolve base (absoluteText path) = path := by
  have hhead : (absoluteText path).toList.head? = some '/' := by simp [absoluteText]
  have hsegments : segments '/' (absoluteText path) = "" :: segments '/' (joinSegments '/' path) := by
    simp [segments, absoluteText, List.splitOn_cons_eq_if_modifyHead]
  rw [resolve, if_pos hhead, hsegments, List.foldl_cons]
  cases path with
  | nil => decide
  | cons first rest =>
      rw [segments_joinSegments (fun name hname => (h name hname).1) (List.cons_ne_nil first rest)]
      exact foldl_enter_of_isName h

/-! ## Relative paths -/

theorem relativeNames_append (path rest : Path) : relativeNames path (path ++ rest) = rest := by
  induction path with
  | nil => rw [List.nil_append, relativeNames]
  | cons name path ih => rw [List.cons_append, relativeNames, if_pos rfl, ih]

theorem relativeNames_of_outside {source target : Path} (h : ¬ source <+: target) :
    ∃ rest, relativeNames source target = ".." :: rest := by
  fun_induction relativeNames source target with
  | case1 target => exact absurd List.nil_prefix h
  | case2 source hne =>
      obtain ⟨name, rest, rfl⟩ := List.exists_cons_of_ne_nil hne
      exact ⟨_, rfl⟩
  | case3 source name target ih => exact ih fun hinside => h ((List.prefix_cons_inj name).mpr hinside)
  | case4 name source name' target hne => exact ⟨_, rfl⟩

/-- Two ways up and a name. -/
example : resolve ["home", "out"] "a-/../../evil" = ["home", "evil"] := by decide

end ThinkLocal.Js
