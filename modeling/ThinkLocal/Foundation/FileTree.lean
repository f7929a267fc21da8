import Mathlib.Data.List.Infix
import Mathlib.Tactic

/-!
# Trees of files

Files and directories at the paths of a tree without links.  A path is the list of the names from the
root on; what stands somewhere stands in a directory.
-/

namespace Foundation

/-- What stands at a path. -/
inductive FileNode (α : Type*)
  | file (content : α)
  | directory

structure FileTree (σ α : Type*) where
  node : List σ → Option (FileNode α)
  root : node [] = some .directory
  parent : ∀ path name, node (path ++ [name]) ≠ none → node path = some .directory

namespace FileTree

variable {σ α : Type*}

/-- The tree without files. -/
def bare [DecidableEq σ] : FileTree σ α where
  node path := if path = [] then some .directory else none
  root := rfl
  parent path name h := by simp at h

/-- The content of the file at a path. -/
def content (tree : FileTree σ α) (path : List σ) : Option α :=
  match tree.node path with
  | some (.file content) => some content
  | _ => none

def isDirectory (tree : FileTree σ α) (path : List σ) : Bool :=
  match tree.node path with
  | some .directory => true
  | _ => false

variable {tree : FileTree σ α} {path other : List σ} {name : σ} {content : α}

theorem isDirectory_iff : tree.isDirectory path = true ↔ tree.node path = some .directory := by
  unfold isDirectory
  split
  · next h => simp [h]
  · next h => simpa using h

theorem content_of_node (h : tree.node path = some (.file content)) :
    tree.content path = some content := by
  simp [FileTree.content, h]

/-! ## Writing a file -/

/-- Where a file can be written: in a directory, where no directory stands. -/
def CanWrite (tree : FileTree σ α) (path : List σ) : Prop :=
  path ≠ [] ∧ tree.isDirectory path.dropLast = true ∧ tree.isDirectory path = false

instance [DecidableEq σ] : Decidable (tree.CanWrite path) := by
  unfold CanWrite
  infer_instance

/-- The tree with a file at the path. -/
def write [DecidableEq σ] (tree : FileTree σ α) (path : List σ) (content : α)
    (h : tree.CanWrite path) : FileTree σ α where
  node other := if other = path then some (.file content) else tree.node other
  root := (if_neg h.1.symm).trans tree.root
  parent other name hname := by
    have hne : other ++ [name] = path → tree.node other = some .directory := by
      rintro rfl
      simpa using isDirectory_iff.mp h.2.1
    have hdirectory : tree.node other = some .directory := by
      split at hname
      · next heq => exact hne heq
      · exact tree.parent other name hname
    -- no directory stands where the file is written
    have hother : other ≠ path := fun heq => by
      have hpath := isDirectory_iff.mpr hdirectory
      rw [heq, h.2.2] at hpath
      cases hpath
    rw [if_neg hother, hdirectory]

section Write

variable [DecidableEq σ] (h : tree.CanWrite path)

@[simp]
theorem node_write : (tree.write path content h).node other =
    if other = path then some (.file content) else tree.node other := rfl

theorem content_write : (tree.write path content h).content other =
    if other = path then some content else tree.content other := by
  by_cases heq : other = path <;> simp [FileTree.content, heq]

theorem isDirectory_write :
    (tree.write path content h).isDirectory other = tree.isDirectory other := by
  by_cases heq : other = path
  · rw [heq, h.2.2]
    simp [isDirectory]
  · simp [isDirectory, heq]

end Write

/-! ## Making a directory -/

/-- Where a directory can be made: no file stands on the way. -/
def CanMake (tree : FileTree σ α) (path : List σ) : Prop :=
  ∀ other ∈ path.inits, (tree.content other).isNone = true

instance : Decidable (tree.CanMake path) := by
  unfold CanMake
  infer_instance

/-- The tree with a directory and the directories that it stands in. -/
def make [DecidableEq σ] (tree : FileTree σ α) (path : List σ) : FileTree σ α where
  node other := if other <+: path then some .directory else tree.node other
  root := if_pos List.nil_prefix
  parent other name hname := by
    split_ifs with hother
    · rfl
    · rw [if_neg fun hprefix => hother ((List.prefix_append other [name]).trans hprefix)] at hname
      exact tree.parent other name hname

section Make

variable [DecidableEq σ]

@[simp]
theorem node_make : (tree.make path).node other =
    if other <+: path then some .directory else tree.node other := rfl

theorem isDirectory_make : (tree.make path).isDirectory other = true ↔
    other <+: path ∨ tree.isDirectory other = true := by
  rw [isDirectory_iff, isDirectory_iff, node_make]
  by_cases h : other <+: path <;> simp [h]

/-- The files stay. -/
theorem content_make (h : tree.CanMake path) : (tree.make path).content other = tree.content other := by
  by_cases hother : other <+: path
  · have hnone := Option.isNone_iff_eq_none.mp (h other (List.mem_inits _ _ |>.mpr hother))
    rw [hnone]
    simp [FileTree.content, hother]
  · simp [FileTree.content, hother]

end Make

end FileTree

end Foundation
