import Mathlib.Tactic
import Mathlib.Data.List.MinMax
import Mathlib.Data.Prod.Lex

/-!
# A replicated map

A map that several actors write and merge without coordination.  A document is
the list of the operations that have arrived.  An operation writes a value at a
place, or deletes what is there, and names the operations at that place that its
author saw: these it replaces, in whatever order the operations arrive elsewhere.
Of the writes at a place that nothing replaces, the one with the greatest number
is read; numbers are pairs of a counter and an actor.

`Replicas` is a group of actors, each with its own document, that write in turns
and merge arbitrary parts of each other's documents.  The history of all writes
is kept beside the documents, each with a tag that says why it was made.
-/

namespace Foundation

/-- The number of an operation: a counter, then the actor that made it. -/
abbrev OpId (Actor : Type*) := ℕ ×ₗ Actor

/-- An operation; without a value it is a deletion. -/
structure Op (Actor Place Value : Type*) where
  id : OpId Actor
  place : Place
  value : Option Value
  /-- The writes that it replaces. -/
  pred : List (OpId Actor)

/-- The actor that made the operation. -/
def Op.author {Actor Place Value : Type*} (op : Op Actor Place Value) : Actor := (ofLex op.id).2

abbrev Document (Actor Place Value : Type*) := List (Op Actor Place Value)

variable {Actor Place Value Tag : Type*}

namespace Document

/-- Some operation of the document replaces the one with the number. -/
def Replaced (doc : Document Actor Place Value) (id : OpId Actor) : Prop :=
  ∃ op ∈ doc, id ∈ op.pred

/-- The greatest counter of the document. -/
def clock (doc : Document Actor Place Value) : ℕ :=
  (doc.map fun op => (ofLex op.id).1).foldr max 0

theorem counter_le_clock {doc : Document Actor Place Value} {op : Op Actor Place Value}
    (h : op ∈ doc) : (ofLex op.id).1 ≤ clock doc := by
  induction doc with
  | nil => cases h
  | cons first rest ih =>
      have hclock : clock (first :: rest) = max (ofLex first.id).1 (clock rest) := rfl
      rcases List.mem_cons.mp h with rfl | hrest
      · omega
      · have := ih hrest
        omega

theorem replaced_append {doc more : Document Actor Place Value} {id : OpId Actor} :
    Replaced (doc ++ more) id ↔ Replaced doc id ∨ Replaced more id := by
  simp only [Replaced, List.mem_append]
  constructor
  · rintro ⟨op, hop | hop, hid⟩
    · exact .inl ⟨op, hop, hid⟩
    · exact .inr ⟨op, hop, hid⟩
  · rintro (⟨op, hop, hid⟩ | ⟨op, hop, hid⟩)
    · exact ⟨op, .inl hop, hid⟩
    · exact ⟨op, .inr hop, hid⟩

theorem replaced_concat {doc : Document Actor Place Value} {op : Op Actor Place Value}
    {id : OpId Actor} : Replaced (doc ++ [op]) id ↔ Replaced doc id ∨ id ∈ op.pred := by
  rw [replaced_append]
  simp [Replaced]

variable [LinearOrder Actor] [DecidableEq Place]

instance (doc : Document Actor Place Value) (id : OpId Actor) : Decidable (Replaced doc id) :=
  inferInstanceAs (Decidable (∃ op ∈ doc, id ∈ op.pred))

variable (doc : Document Actor Place Value)

/-- The writes at the place that nothing replaces. -/
def visible (place : Place) : Document Actor Place Value :=
  doc.filter fun op => op.place = place ∧ op.value.isSome ∧ ¬ Replaced doc op.id

/-- The write that is read at the place. -/
def winner (place : Place) : Option (Op Actor Place Value) :=
  (visible doc place).argmax Op.id

/-- The operation that the actor makes on the document. -/
def commit (actor : Actor) (place : Place) (value : Option Value) : Op Actor Place Value where
  id := toLex (clock doc + 1, actor)
  place := place
  value := value
  pred := (visible doc place).map Op.id

variable {doc} {op : Op Actor Place Value} {place : Place}

theorem mem_visible_iff :
    op ∈ visible doc place ↔
      op ∈ doc ∧ op.place = place ∧ op.value.isSome ∧ ¬ Replaced doc op.id := by
  rw [visible, List.mem_filter, decide_eq_true_iff]

theorem mem_visible_of_winner (h : winner doc place = some op) : op ∈ visible doc place :=
  List.argmax_mem h

theorem winner_eq_none_iff : winner doc place = none ↔ visible doc place = [] :=
  List.argmax_eq_none

/-- There is a winner where anything is visible. -/
theorem exists_winner (h : op ∈ visible doc place) : ∃ op', winner doc place = some op' := by
  cases hwinner : winner doc place with
  | none =>
      rw [winner_eq_none_iff.mp hwinner] at h
      cases h
  | some op' => exact ⟨op', rfl⟩

theorem winner_of_visible (h : visible doc place = [op]) : winner doc place = some op := by
  rw [winner, h]
  rfl

/-- An operation at another place that replaces nothing here changes nothing here. -/
theorem visible_concat_of_ne (hplace : op.place ≠ place)
    (hpred : ∀ op' ∈ doc, op'.place = place → op'.id ∉ op.pred) :
    visible (doc ++ [op]) place = visible doc place := by
  rw [visible, List.filter_append, visible]
  have hnew : [op].filter (fun op' => op'.place = place ∧ op'.value.isSome ∧
      ¬ Replaced (doc ++ [op]) op'.id) = [] := by
    simp [hplace]
  rw [hnew, List.append_nil]
  apply List.filter_congr
  intro op' hop'
  by_cases hhere : op'.place = place
  · have hreplaced : Replaced (doc ++ [op]) op'.id ↔ Replaced doc op'.id ∨ op'.id ∈ op.pred :=
      replaced_concat
    simp [hreplaced, hpred op' hop' hhere]
  · simp [hhere]

/-- An operation that replaces all writes at its place is the only one there. -/
theorem visible_concat_self (hself : ¬ Replaced (doc ++ [op]) op.id)
    (hall : ∀ op' ∈ doc, op'.place = op.place → op'.value.isSome →
      Replaced (doc ++ [op]) op'.id) :
    visible (doc ++ [op]) op.place = if op.value.isSome then [op] else [] := by
  have hold : doc.filter (fun op' => op'.place = op.place ∧ op'.value.isSome ∧
      ¬ Replaced (doc ++ [op]) op'.id) = [] := by
    rw [List.filter_eq_nil_iff]
    intro op' hop' hkept
    obtain ⟨hplace, hsome, hnot⟩ := of_decide_eq_true hkept
    exact hnot (hall op' hop' hplace hsome)
  rw [visible, List.filter_append, hold, List.nil_append]
  cases hvalue : op.value <;> simp [hvalue, hself]

/-- A commit replaces every write at its place that was on the document. -/
theorem replaced_of_commit (actor : Actor) (value : Option Value) (hmem : op ∈ doc)
    (hsome : op.value.isSome) :
    Replaced (doc ++ [commit doc actor op.place value]) op.id := by
  by_cases hreplaced : Replaced doc op.id
  · exact replaced_append.mpr (.inl hreplaced)
  · have hvisible : op ∈ visible doc op.place :=
      mem_visible_iff.mpr ⟨hmem, rfl, hsome, hreplaced⟩
    exact replaced_concat.mpr (.inr (List.mem_map.mpr ⟨op, hvisible, rfl⟩))

end Document

open Document

/-! ## Actors with a document each -/

structure Replicas (Actor Place Value Tag : Type*) where
  docs : Actor → Document Actor Place Value
  /-- Every operation ever made, with its tag. -/
  history : List (Tag × Op Actor Place Value)

namespace Replicas

variable [LinearOrder Actor] [DecidableEq Place] (R : Replicas Actor Place Value Tag)

def empty : Replicas Actor Place Value Tag where
  docs := fun _ => []
  history := []

/-- The operation of the actor on its own document. -/
def nextOp (actor : Actor) (place : Place) (value : Option Value) : Op Actor Place Value :=
  commit (R.docs actor) actor place value

def write (actor : Actor) (tag : Tag) (place : Place) (value : Option Value) :
    Replicas Actor Place Value Tag where
  docs := Function.update R.docs actor (R.docs actor ++ [R.nextOp actor place value])
  history := R.history ++ [(tag, R.nextOp actor place value)]

/-- The operations arrive at the actor. -/
def merge (actor : Actor) (ops : Document Actor Place Value) : Replicas Actor Place Value Tag where
  docs := Function.update R.docs actor (R.docs actor ++ ops)
  history := R.history

/-- What holds of the documents and the history after any writes and merges. -/
structure Consistent : Prop where
  /-- Every actor keeps the operations it made. -/
  own : ∀ w ∈ R.history, w.2 ∈ R.docs w.2.author
  /-- Every operation of a document was made. -/
  made : ∀ actor, ∀ op ∈ R.docs actor, ∃ tag, (tag, op) ∈ R.history
  /-- A number is given once. -/
  unique : ∀ w ∈ R.history, ∀ w' ∈ R.history, w.2.id = w'.2.id → w = w'
  /-- An operation replaces operations at its own place. -/
  seen : ∀ w ∈ R.history, ∀ id ∈ w.2.pred, ∃ w' ∈ R.history, w'.2.id = id ∧ w'.2.place = w.2.place

variable {R} {actor other : Actor} {tag : Tag} {place : Place} {value : Option Value}

theorem docs_write_self :
    (R.write actor tag place value).docs actor = R.docs actor ++ [R.nextOp actor place value] :=
  Function.update_self _ _ _

theorem docs_write_of_ne (h : other ≠ actor) :
    (R.write actor tag place value).docs other = R.docs other :=
  Function.update_of_ne h _ _

omit [DecidableEq Place] in
theorem docs_merge_self {ops : Document Actor Place Value} :
    (R.merge actor ops).docs actor = R.docs actor ++ ops :=
  Function.update_self _ _ _

omit [DecidableEq Place] in
theorem docs_merge_of_ne {ops : Document Actor Place Value} (h : other ≠ actor) :
    (R.merge actor ops).docs other = R.docs other :=
  Function.update_of_ne h _ _

/-- A document only grows. -/
theorem mem_docs_write {op : Op Actor Place Value} (h : op ∈ R.docs other) :
    op ∈ (R.write actor tag place value).docs other := by
  by_cases hother : other = actor
  · subst hother
    rw [docs_write_self]
    exact List.mem_append_left _ h
  · rw [docs_write_of_ne hother]
    exact h

omit [DecidableEq Place] in
theorem mem_docs_merge {op : Op Actor Place Value} {ops : Document Actor Place Value}
    (h : op ∈ R.docs other) : op ∈ (R.merge actor ops).docs other := by
  by_cases hother : other = actor
  · subst hother
    rw [docs_merge_self]
    exact List.mem_append_left _ h
  · rw [docs_merge_of_ne hother]
    exact h

theorem mem_docs_write_iff {op : Op Actor Place Value} :
    op ∈ (R.write actor tag place value).docs other ↔
      op ∈ R.docs other ∨ other = actor ∧ op = R.nextOp actor place value := by
  by_cases hother : other = actor
  · subst hother
    rw [docs_write_self, List.mem_append, List.mem_singleton]
    simp
  · rw [docs_write_of_ne hother]
    simp [hother]

omit [LinearOrder Actor] [DecidableEq Place] in
theorem consistent_empty : (empty : Replicas Actor Place Value Tag).Consistent := by
  refine ⟨?_, ?_, ?_, ?_⟩
  all_goals simp [empty]

namespace Consistent

variable (h : R.Consistent)

include h

/-- The next number of an actor is above all numbers it gave. -/
theorem fresh {w : Tag × Op Actor Place Value} (hw : w ∈ R.history) :
    w.2.id ≠ (R.nextOp actor place value).id := by
  intro hid
  have hown := h.own w hw
  rw [Op.author, hid] at hown
  have hle : (ofLex w.2.id).1 ≤ clock (R.docs actor) := counter_le_clock hown
  rw [hid] at hle
  have hnext : (ofLex (R.nextOp actor place value).id).1 = clock (R.docs actor) + 1 := rfl
  omega

omit [LinearOrder Actor] [DecidableEq Place] in
/-- Nothing on a document replaces an operation that is not yet made. -/
theorem not_replaced_of_fresh {id : OpId Actor} (hid : ∀ w ∈ R.history, w.2.id ≠ id) :
    ¬ Replaced (R.docs other) id := by
  rintro ⟨op, hop, hpred⟩
  obtain ⟨tag, hmade⟩ := h.made other op hop
  obtain ⟨w, hw, hw', -⟩ := h.seen _ hmade id hpred
  exact hid w hw hw'

omit [LinearOrder Actor] [DecidableEq Place] in
theorem eq_of_id {op op' : Op Actor Place Value} (hop : op ∈ R.docs actor)
    (hop' : op' ∈ R.docs other) (hid : op.id = op'.id) : op = op' := by
  obtain ⟨tag, hmade⟩ := h.made actor op hop
  obtain ⟨tag', hmade'⟩ := h.made other op' hop'
  exact congrArg Prod.snd (h.unique _ hmade _ hmade' hid)

theorem write : (R.write actor tag place value).Consistent := by
  have hmem : ∀ w, w ∈ (R.write actor tag place value).history ↔
      w ∈ R.history ∨ w = (tag, R.nextOp actor place value) := by
    intro w
    rw [Replicas.write, List.mem_append, List.mem_singleton]
  refine ⟨?_, ?_, ?_, ?_⟩
  · intro w hw
    rcases (hmem w).mp hw with hw | rfl
    · exact mem_docs_write (h.own w hw)
    · exact mem_docs_write_iff.mpr (.inr ⟨rfl, rfl⟩)
  · intro other op hop
    rcases mem_docs_write_iff.mp hop with hop | ⟨-, rfl⟩
    · obtain ⟨tag', hmade⟩ := h.made other op hop
      exact ⟨tag', (hmem _).mpr (.inl hmade)⟩
    · exact ⟨tag, (hmem _).mpr (.inr rfl)⟩
  · intro w hw w' hw' hid
    -- the new operation has an id that no other one has
    rcases (hmem w).mp hw with hw | rfl <;> rcases (hmem w').mp hw' with hw' | rfl
    · exact h.unique w hw w' hw' hid
    · exact absurd hid (h.fresh hw)
    · exact absurd hid.symm (h.fresh hw')
    · rfl
  · intro w hw id hpred
    rcases (hmem w).mp hw with hw | rfl
    · obtain ⟨w', hw', hseen⟩ := h.seen w hw id hpred
      exact ⟨w', (hmem w').mpr (.inl hw'), hseen⟩
    · obtain ⟨op, hvisible, rfl⟩ := List.mem_map.mp hpred
      obtain ⟨hop, hplace, -⟩ := mem_visible_iff.mp hvisible
      obtain ⟨tag', hmade⟩ := h.made actor op hop
      exact ⟨_, (hmem _).mpr (.inl hmade), rfl, hplace⟩

omit [DecidableEq Place] in
theorem merge {ops : Document Actor Place Value} (hops : ops ⊆ R.docs other) :
    (R.merge actor ops).Consistent := by
  refine ⟨fun w hw => mem_docs_merge (h.own w hw), ?_, h.unique, h.seen⟩
  intro receiver op hop
  by_cases hreceiver : receiver = actor
  · subst hreceiver
    rw [docs_merge_self] at hop
    rcases List.mem_append.mp hop with hop | hop
    · exact h.made receiver op hop
    · exact h.made other op (hops hop)
  · rw [docs_merge_of_ne hreceiver] at hop
    exact h.made receiver op hop

/-! ## What a write does to the places -/

theorem not_replaced_nextOp :
    ¬ Replaced (R.docs actor ++ [R.nextOp actor place value]) (R.nextOp actor place value).id := by
  intro hreplaced
  rcases replaced_concat.mp hreplaced with hold | hself
  · exact h.not_replaced_of_fresh (fun w hw => h.fresh hw) hold
  · obtain ⟨op, hvisible, hid⟩ := List.mem_map.mp hself
    obtain ⟨tag, hmade⟩ := h.made actor op (mem_visible_iff.mp hvisible).1
    exact h.fresh hmade hid

/-- The actor sees its own write alone, and nothing after a deletion. -/
theorem visible_write_self :
    visible ((R.write actor tag place value).docs actor) place =
      if value.isSome then [R.nextOp actor place value] else [] := by
  rw [docs_write_self]
  apply visible_concat_self h.not_replaced_nextOp
  intro op hop hplace hsome
  have hreplaced := replaced_of_commit actor value hop hsome
  rw [hplace] at hreplaced
  exact hreplaced

/-- A write leaves the other places of the document as they are. -/
theorem visible_write_of_ne {place' : Place} (hplace : place' ≠ place) :
    visible ((R.write actor tag place value).docs actor) place' =
      visible (R.docs actor) place' := by
  rw [docs_write_self]
  apply visible_concat_of_ne (Ne.symm hplace)
  intro op hop hhere hpred
  obtain ⟨op', hvisible, hid⟩ := List.mem_map.mp hpred
  obtain ⟨hop', hplace', -⟩ := mem_visible_iff.mp hvisible
  have heq : op' = op := h.eq_of_id hop' hop hid
  rw [heq] at hplace'
  exact hplace (hhere.symm.trans hplace')

end Consistent

end Replicas

end Foundation
