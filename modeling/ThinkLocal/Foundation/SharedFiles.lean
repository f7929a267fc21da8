import ThinkLocal.Foundation.Arena

/-!
# Directories of open files

A directory names files.  Who has opened a file writes to it under its number, wherever its name
points by then; a file that has lost its name lives on for them.  No two names share a file.
-/

namespace Foundation

/-- What is in a file after a chunk was written at a position; a gap is filled. -/
def overwrite {α : Type*} (gap : α) (content : List α) (position : ℕ) (chunk : List α) : List α :=
  content.take position ++ List.replicate (position - content.length) gap ++ chunk ++
    content.drop (position + chunk.length)

/-- Writing where a file ends appends to it. -/
theorem overwrite_length {α : Type*} (gap : α) (content chunk : List α) :
    overwrite gap content content.length chunk = content ++ chunk := by
  simp [overwrite]

structure Directory (σ α : Type*) where
  entry : σ → Option ℕ
  files : Arena (List α)
  linked : ∀ {name i}, entry name = some i → (files.get i).isSome
  unshared : ∀ {name other i}, entry name = some i → entry other = some i → name = other

namespace Directory

variable {σ α : Type*}

def empty : Directory σ α where
  entry _ := none
  files := .empty
  linked h := by cases h
  unshared h := by cases h

/-- What is in the file behind a name. -/
def content (d : Directory σ α) (name : σ) : Option (List α) := (d.entry name).bind d.files.get

theorem content_eq_some (d : Directory σ α) {name : σ} {i : ℕ} (h : d.entry name = some i) :
    ∃ text, d.files.get i = some text ∧ d.content name = some text := by
  obtain ⟨text, htext⟩ := Option.isSome_iff_exists.mp (d.linked h)
  exact ⟨text, htext, by rw [content, h]; exact htext⟩

theorem content_eq_none_iff (d : Directory σ α) {name : σ} :
    d.content name = none ↔ d.entry name = none := by
  constructor
  · intro h
    cases hentry : d.entry name with
    | none => rfl
    | some i =>
        obtain ⟨text, -, htext⟩ := d.content_eq_some hentry
        rw [h] at htext
        cases htext
  · intro h
    rw [content, h]
    rfl

theorem lt_next (d : Directory σ α) {name : σ} {i : ℕ} (h : d.entry name = some i) :
    i < d.files.next := by
  obtain ⟨text, htext, -⟩ := d.content_eq_some h
  exact d.files.lt_next htext

/-- The directory with other content in the file of a number. -/
def modify (d : Directory σ α) (i : ℕ) (f : List α → List α) : Directory σ α where
  entry := d.entry
  files := d.files.modify i f
  linked {name j} h := by
    obtain ⟨text, htext, -⟩ := d.content_eq_some h
    rw [Arena.get_modify, htext]
    split <;> rfl
  unshared := d.unshared

@[simp] theorem entry_modify (d : Directory σ α) (i : ℕ) (f : List α → List α) (name : σ) :
    (d.modify i f).entry name = d.entry name := rfl

/-- A write through an open file. -/
def write (gap : α) (d : Directory σ α) (i position : ℕ) (chunk : List α) : Directory σ α :=
  d.modify i fun text => overwrite gap text position chunk

@[simp] theorem entry_write (gap : α) (d : Directory σ α) (i position : ℕ) (chunk : List α)
    (name : σ) : (d.write gap i position chunk).entry name = d.entry name := rfl

variable [DecidableEq σ]

/-! ## The calls -/

/-- The directory with a new, empty file behind a name. -/
def create (d : Directory σ α) (name : σ) : Directory σ α where
  entry other := if other = name then some d.files.next else d.entry other
  files := d.files.alloc []
  linked {other i} h := by
    split at h
    · obtain rfl := Option.some.inj h
      simp
    · obtain ⟨text, htext, -⟩ := d.content_eq_some h
      rw [Arena.get_alloc_of_get htext]
      rfl
  unshared {first second i} hfirst hsecond := by
    split at hfirst <;> split at hsecond
    · next h₁ h₂ => exact h₁.trans h₂.symm
    · obtain rfl := Option.some.inj hfirst
      exact absurd (d.lt_next hsecond) (lt_irrefl _)
    · obtain rfl := Option.some.inj hsecond
      exact absurd (d.lt_next hfirst) (lt_irrefl _)
    · exact d.unshared hfirst hsecond

/-- The directory without a name. -/
def remove (d : Directory σ α) (name : σ) : Directory σ α where
  entry other := if other = name then none else d.entry other
  files := d.files
  linked {other i} h := by
    split at h
    · cases h
    · exact d.linked h
  unshared {first second i} hfirst hsecond := by
    split at hfirst <;> split at hsecond
    any_goals contradiction
    exact d.unshared hfirst hsecond

/-- `open` with `wx`: fails where the name is taken. -/
def openExclusive (d : Directory σ α) (name : σ) : Option (ℕ × Directory σ α) :=
  if d.entry name = none then some (d.files.next, d.create name) else none

/-- `open` with `w`: empties the file that is there. -/
def openTruncated (d : Directory σ α) (name : σ) : ℕ × Directory σ α :=
  match d.entry name with
  | some i => (i, d.modify i fun _ => [])
  | none => (d.files.next, d.create name)

/-- `unlink`: fails where there is no such name. -/
def unlink (d : Directory σ α) (name : σ) : Option (Directory σ α) :=
  if d.entry name = none then none else some (d.remove name)

/-- The directory in which a file has moved from one name to another. -/
def move (d : Directory σ α) (old new : σ) : Directory σ α where
  entry name := if name = new then d.entry old else if name = old then none else d.entry name
  files := d.files
  linked {name i} h := by
    split_ifs at h <;> exact d.linked h
  unshared {first second i} hfirst hsecond := by
    split_ifs at hfirst hsecond with h₁ h₂ h₃ h₄ h₅ h₆
    · exact h₁.trans h₂.symm
    · exact absurd (d.unshared hfirst hsecond).symm h₃
    · exact absurd (d.unshared hfirst hsecond) h₄
    · exact d.unshared hfirst hsecond

/-- `rename`: replaces what stands under the new name at once. -/
def rename (d : Directory σ α) (old new : σ) : Option (Directory σ α) :=
  if d.entry old = none then none else some (d.move old new)

variable {d : Directory σ α} {name other old new : σ} {i : ℕ}

/-! ## What the calls leave in the directory -/

@[simp] theorem entry_create :
    (d.create name).entry other = if other = name then some d.files.next else d.entry other := rfl

@[simp] theorem entry_remove :
    (d.remove name).entry other = if other = name then none else d.entry other := rfl

@[simp] theorem entry_move :
    (d.move old new).entry other =
      if other = new then d.entry old else if other = old then none else d.entry other := rfl

theorem content_create :
    (d.create name).content other = if other = name then some [] else d.content other := by
  by_cases h : other = name
  · simp [content, create, h]
  · rw [if_neg h, content, entry_create, if_neg h, content]
    cases hentry : d.entry other with
    | none => rfl
    | some i =>
        obtain ⟨text, htext, -⟩ := d.content_eq_some hentry
        exact (Arena.get_alloc_of_get htext).trans htext.symm

/-- A file is changed under its name, and no other. -/
theorem content_modify {f : List α → List α} (h : d.entry name = some i) :
    (d.modify i f).content other = if other = name then (d.content name).map f else d.content other := by
  by_cases hname : other = name
  · rw [if_pos hname, hname, content, content, entry_modify, h]
    exact Arena.get_modify_self _ _ _
  · rw [if_neg hname, content, content, entry_modify]
    cases hentry : d.entry other with
    | none => rfl
    | some j =>
        have hother : j ≠ i := by
          rintro rfl
          exact hname (d.unshared hentry h)
        exact (Arena.get_modify _ _ _ _).trans (if_neg hother)

/-- A write where a file ends appends to it. -/
theorem content_write {gap : α} {text chunk : List α} (h : d.entry name = some i)
    (htext : d.content name = some text) :
    (d.write gap i text.length chunk).content other =
      if other = name then some (text ++ chunk) else d.content other := by
  unfold write
  rw [content_modify h, htext, Option.map_some, overwrite_length]

theorem content_remove :
    (d.remove name).content other = if other = name then none else d.content other := by
  by_cases h : other = name <;> simp [content, remove, h]

theorem content_move :
    (d.move old new).content other =
      if other = new then d.content old else if other = old then none else d.content other := by
  unfold content
  rw [entry_move]
  split_ifs <;> rfl

/-- An emptied or new file stands under the name that was opened. -/
theorem entry_openTruncated :
    (d.openTruncated name).2.entry other =
      if other = name then some (d.openTruncated name).1 else d.entry other := by
  unfold openTruncated
  cases h : d.entry name with
  | none => rfl
  | some i =>
      by_cases hother : other = name
      · simp [hother, h]
      · simp [hother]

theorem content_openTruncated :
    (d.openTruncated name).2.content other = if other = name then some [] else d.content other := by
  unfold openTruncated
  cases h : d.entry name with
  | none => exact content_create
  | some i =>
      obtain ⟨text, -, htext⟩ := d.content_eq_some h
      rw [content_modify h, htext]
      rfl

/-- A file that is written anew. -/
theorem content_write_openTruncated (gap : α) (chunk : List α) :
    ((d.openTruncated name).2.write gap (d.openTruncated name).1 ([] : List α).length chunk).content
        other = if other = name then some chunk else d.content other := by
  rw [content_write (entry_openTruncated.trans (if_pos rfl))
    (content_openTruncated.trans (if_pos rfl)), content_openTruncated, List.nil_append]
  split_ifs <;> rfl

theorem openExclusive_eq_some {d' : Directory σ α} (h : d.openExclusive name = some (i, d')) :
    d.entry name = none ∧ i = d.files.next ∧ d' = d.create name := by
  unfold openExclusive at h
  split at h
  · next hentry =>
      obtain ⟨rfl, rfl⟩ := Prod.mk.inj (Option.some.inj h)
      exact ⟨hentry, rfl, rfl⟩
  · cases h

theorem unlink_eq_some {d' : Directory σ α} (h : d.unlink name = some d') : d' = d.remove name := by
  unfold unlink at h
  split at h
  · cases h
  · exact (Option.some.inj h).symm

/-- An `unlink` whose error is ignored. -/
theorem getD_unlink : (d.unlink name).getD d = d.remove name ∨ (d.unlink name).getD d = d := by
  cases hunlink : d.unlink name with
  | none => exact .inr rfl
  | some removed => exact .inl (unlink_eq_some hunlink)

theorem rename_eq_some {d' : Directory σ α} (h : d.rename old new = some d') :
    d' = d.move old new := by
  unfold rename at h
  split at h
  · cases h
  · exact (Option.some.inj h).symm

end Directory

end Foundation
