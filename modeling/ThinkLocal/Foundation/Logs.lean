import Mathlib.Tactic
import Mathlib.Logic.Relation

/-!
# Logs, chains and orders

What stands before an item of a list: of a log that grows at its end, of a record of switchings, of a chain
of hashes, and of an order along dependencies.
-/

namespace Foundation

/-! ## What stands before an event

A log grows at its end.  `Each P log` says of every event of the log that what stands before it
satisfies `P`; it survives an append exactly if the new event is preceded as it should be.
-/

section

variable {α : Type*}

def Each (P : List α → α → Prop) (log : List α) : Prop :=
  ∀ before a after, log = before ++ a :: after → P before a

variable {P : List α → α → Prop} {log : List α} {a : α}

theorem each_nil : Each P [] := fun before _ _ h => by
  cases before <;> cases h

theorem each_concat : Each P (log ++ [a]) ↔ Each P log ∧ P log a := by
  constructor
  · intro h
    refine ⟨fun before b after heq => h before b (after ++ [a]) (by simp [heq]), h log a [] rfl⟩
  · rintro ⟨hlog, ha⟩ before b after heq
    rcases List.eq_nil_or_concat after with rfl | ⟨rest, last, rfl⟩
    · obtain ⟨rfl, heq'⟩ := List.append_inj' heq rfl
      obtain rfl := List.head_eq_of_cons_eq heq'
      exact ha
    · have hsplit : log ++ [a] = (before ++ b :: rest) ++ [last] := by simpa using heq
      exact hlog before b rest (List.append_inj' hsplit rfl).1

end

/-! ## Records of switchings

A thing that is off at first is switched on, off, on and so on, and every switching is
recorded.  The record then alternates, and its last item is the state of the thing.
-/

/-- The items alternate, beginning with `true`. -/
def Alternates (record : List Bool) : Prop := (false :: record).IsChain (· ≠ ·)

instance (record : List Bool) : Decidable (Alternates record) :=
  inferInstanceAs (Decidable ((false :: record).IsChain (· ≠ ·)))

/-- The state after the last switching. -/
def lastSwitched (record : List Bool) : Bool := record.getLast?.getD false

/-- The record is that of a thing in the given state. -/
structure Tracks (record : List Bool) (on : Bool) : Prop where
  alternates : Alternates record
  last : on = lastSwitched record

theorem tracks_nil : Tracks [] false := ⟨List.isChain_singleton false, rfl⟩

theorem alternates_concat_iff {record : List Bool} {item : Bool} :
    Alternates (record ++ [item]) ↔ Alternates record ∧ item ≠ lastSwitched record := by
  have hlast : (false :: record).getLast? = some (lastSwitched record) := by
    rw [List.getLast?_cons, lastSwitched]
  rw [Alternates, ← List.cons_append, List.isChain_append, hlast]
  simp [Alternates, ne_comm]

/-- A switching goes into the record. -/
theorem Tracks.switch {record : List Bool} {on : Bool} (h : Tracks record on) :
    Tracks (record ++ [!on]) (!on) := by
  refine ⟨alternates_concat_iff.mpr ⟨h.alternates, ?_⟩, by simp [lastSwitched]⟩
  rw [← h.last]
  exact Bool.not_ne_self on

/-! ## Hash chains

A list of entries in which every entry names the hash of the one before it, and the first one a
start value.  The head of a chain is what the next entry has to name.
-/

section

variable {Entry Hash : Type*}

/-- How entries are linked. -/
structure Links (Entry Hash : Type*) where
  previous : Entry → Hash
  hash : Entry → Hash

namespace Links

variable (L : Links Entry Hash)

/-- Every entry names the hash before it. -/
def Chained : Hash → List Entry → Prop
  | _, [] => True
  | start, entry :: rest => L.previous entry = start ∧ Chained (L.hash entry) rest

/-- The hash of the last entry. -/
def head (start : Hash) (entries : List Entry) : Hash :=
  (entries.getLast?.map L.hash).getD start

variable {L} {start : Hash} {entries : List Entry} {entry : Entry}

@[simp] theorem head_nil : L.head start [] = start := rfl

@[simp] theorem head_concat : L.head start (entries ++ [entry]) = L.hash entry := by
  simp [head]

theorem head_cons : L.head start (entry :: entries) = L.head (L.hash entry) entries := by
  cases entries with
  | nil => rfl
  | cons next rest =>
      rw [head, head, List.getLast?_cons_cons, List.getLast?_eq_getLast_of_ne_nil (by simp)]
      rfl

/-- A chain grows by an entry that names its head. -/
theorem Chained.concat (h : L.Chained start entries)
    (hentry : L.previous entry = L.head start entries) : L.Chained start (entries ++ [entry]) := by
  induction entries generalizing start with
  | nil => exact ⟨hentry, trivial⟩
  | cons first rest ih =>
      obtain ⟨hfirst, hrest⟩ := h
      rw [head_cons] at hentry
      exact ⟨hfirst, ih hrest hentry⟩

end Links

end

/-! ## Orders along dependencies

Every item needs the items of a list.  A list of items is in topological order if each of them stands
behind all that it needs.  Such a list holds whatever its items need, directly or through others, and no
item of it needs itself, if it occurs only once.
-/

open Relation

variable {α : Type*} (needs : α → List α)

def Needs (a b : α) : Prop := b ∈ needs a

/-- Some item needs itself, directly or through others. -/
def Cyclic : Prop := ∃ a, TransGen (Needs needs) a a

def Topological (order : List α) : Prop := Each (fun before a => needs a ⊆ before) order

namespace Topological

variable {needs} {order before after : List α} {a b : α}

/-- What an item needs stands before it. -/
theorem mem_before (h : Topological needs (before ++ a :: after)) (hab : TransGen (Needs needs) a b) :
    b ∈ before := by
  induction hab with
  | single hab => exact h before a after rfl hab
  | tail _ hbc ih =>
      obtain ⟨front, back, rfl⟩ := List.mem_iff_append.mp ih
      have hfront := h front _ (back ++ a :: after) (by simp) hbc
      exact List.mem_append_left _ hfront

theorem mem_of_needs (h : Topological needs order) (ha : a ∈ order)
    (hab : ReflTransGen (Needs needs) a b) : b ∈ order := by
  obtain ⟨before, after, rfl⟩ := List.mem_iff_append.mp ha
  rcases reflTransGen_iff_eq_or_transGen.mp hab with rfl | hab
  · exact ha
  · exact List.mem_append_left _ (h.mem_before hab)

theorem not_needs_itself (h : Topological needs order) (hnodup : order.Nodup) (ha : a ∈ order) :
    ¬ TransGen (Needs needs) a a := by
  intro hcycle
  obtain ⟨before, after, rfl⟩ := List.mem_iff_append.mp ha
  have hmem := h.mem_before hcycle
  exact (List.nodup_append.mp hnodup).2.2 a hmem a List.mem_cons_self rfl

end Topological

end Foundation
