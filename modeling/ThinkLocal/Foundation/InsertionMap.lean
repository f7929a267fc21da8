import Mathlib.Tactic

/-!
# Maps in insertion order

A finite map that remembers the order in which its keys were inserted, as the
`Map` of ECMAScript does: writing a key that is present keeps its position,
writing a new key appends it, and a key that is deleted and written again moves
to the end.  The structure carries the fact that no key occurs twice.
-/

namespace Foundation

/-- Key-value pairs in insertion order, no key twice. -/
structure InsertionMap (κ α : Type*) where
  entries : List (κ × α)
  nodup : (entries.map Prod.fst).Nodup

namespace InsertionMap

variable {κ α : Type*}

/-- The map without entries. -/
def empty : InsertionMap κ α := ⟨[], List.nodup_nil⟩

instance : Inhabited (InsertionMap κ α) := ⟨empty⟩

/-- The keys in insertion order. -/
def keys (m : InsertionMap κ α) : List κ := m.entries.map Prod.fst

/-- The values in insertion order of their keys. -/
def values (m : InsertionMap κ α) : List α := m.entries.map Prod.snd

/-- The number of keys. -/
def size (m : InsertionMap κ α) : Nat := m.entries.length

/-- Changes every value in its place. -/
def mapValues (f : α → α) (m : InsertionMap κ α) : InsertionMap κ α where
  entries := m.entries.map fun p => (p.1, f p.2)
  nodup := by rw [List.map_map]; exact m.nodup

variable [DecidableEq κ]

/-- The value under a key. -/
def get (m : InsertionMap κ α) (k : κ) : Option α :=
  (m.entries.find? fun p => p.1 = k).map Prod.snd

/-- Is the key present? -/
def has (m : InsertionMap κ α) (k : κ) : Bool := (m.get k).isSome

/-- The pairs after a write: in place for a present key, at the end for a new one. -/
def setEntries (entries : List (κ × α)) (k : κ) (v : α) : List (κ × α) :=
  if k ∈ entries.map Prod.fst then
    entries.map fun p => if p.1 = k then (k, v) else p
  else entries ++ [(k, v)]

theorem keys_setEntries (entries : List (κ × α)) (k : κ) (v : α) :
    (setEntries entries k v).map Prod.fst =
      if k ∈ entries.map Prod.fst then entries.map Prod.fst
      else entries.map Prod.fst ++ [k] := by
  unfold setEntries
  split
  · rw [List.map_map]
    refine List.map_congr_left fun p _ => ?_
    by_cases hp : p.1 = k <;> simp [hp]
  · simp

/-- Writes a key. -/
def set (m : InsertionMap κ α) (k : κ) (v : α) : InsertionMap κ α where
  entries := setEntries m.entries k v
  nodup := by
    rw [keys_setEntries]
    split
    · exact m.nodup
    · rw [List.nodup_append]
      refine ⟨m.nodup, List.nodup_singleton k, fun a ha b hb => ?_⟩
      rintro rfl
      rw [List.mem_singleton] at hb
      exact absurd (hb ▸ ha) ‹_›

/-- Removes a key. -/
def delete (m : InsertionMap κ α) (k : κ) : InsertionMap κ α where
  entries := m.entries.filter fun p => p.1 ≠ k
  nodup := m.nodup.sublist (List.filter_sublist.map Prod.fst)

/-- Keeps the pairs that satisfy a test. -/
def filter (m : InsertionMap κ α) (p : κ → α → Bool) : InsertionMap κ α where
  entries := m.entries.filter fun q => p q.1 q.2
  nodup := m.nodup.sublist (List.filter_sublist.map Prod.fst)

/-! ## Lookups -/

@[simp] theorem get_empty (k : κ) : (empty : InsertionMap κ α).get k = none := rfl

/-- A lookup finds exactly the pairs of the map. -/
theorem get_eq_some_iff {m : InsertionMap κ α} {k : κ} {v : α} :
    m.get k = some v ↔ (k, v) ∈ m.entries := by
  obtain ⟨entries, hnodup⟩ := m
  unfold get
  induction entries with
  | nil => simp
  | cons p rest ih =>
      rw [List.map_cons, List.nodup_cons] at hnodup
      have hrest := ih hnodup.2
      -- the keys differ, so the pair that is found first is the only one
      by_cases hp : p.1 = k
      · have hnot : (k, v) ∉ rest := fun hmem =>
          hnodup.1 (List.mem_map.mpr ⟨(k, v), hmem, hp.symm⟩)
        rw [List.find?_cons_of_pos (by simpa using hp), List.mem_cons]
        constructor
        · intro h
          exact .inl (Prod.ext hp.symm (Option.some.inj h).symm)
        · rintro (h | h)
          · rw [← h]; rfl
          · exact absurd h hnot
      · rw [List.find?_cons_of_neg (by simpa using hp), List.mem_cons]
        constructor
        · intro h
          exact .inr (hrest.mp h)
        · rintro (h | h)
          · exact absurd (congrArg Prod.fst h).symm hp
          · exact hrest.mpr h

theorem get_eq_none_iff {m : InsertionMap κ α} {k : κ} : m.get k = none ↔ k ∉ m.keys := by
  unfold get keys
  rw [Option.map_eq_none_iff, List.find?_eq_none]
  simp only [List.mem_map, not_exists, not_and, decide_eq_true_eq]

theorem mem_values_iff {m : InsertionMap κ α} {v : α} : v ∈ m.values ↔ ∃ k, m.get k = some v := by
  simp only [values, List.mem_map, get_eq_some_iff]
  constructor
  · rintro ⟨⟨k, w⟩, hmem, rfl⟩
    exact ⟨k, hmem⟩
  · rintro ⟨k, hmem⟩
    exact ⟨(k, v), hmem, rfl⟩

/-! ## Writes -/

theorem mem_entries_set {m : InsertionMap κ α} {k : κ} {v : α} {p : κ × α} :
    p ∈ (m.set k v).entries ↔ p = (k, v) ∨ (p.1 ≠ k ∧ p ∈ m.entries) := by
  simp only [set, setEntries]
  split
  -- a key that is there keeps its place
  case isTrue hk =>
    simp only [List.mem_map]
    constructor
    · rintro ⟨q, hq, rfl⟩
      by_cases hqk : q.1 = k
      · exact .inl (by simp [hqk])
      · exact .inr (by simpa [hqk] using hq)
    · rintro (rfl | ⟨hne, hmem⟩)
      · obtain ⟨q, hq, hqk⟩ := List.mem_map.mp hk
        exact ⟨q, hq, by simp [hqk]⟩
      · exact ⟨p, hmem, by simp [hne]⟩
  case isFalse hk =>
    rw [List.mem_append, List.mem_singleton]
    constructor
    · rintro (hmem | rfl)
      · exact .inr ⟨fun h => hk (List.mem_map.mpr ⟨p, hmem, h⟩), hmem⟩
      · exact .inl rfl
    · rintro (rfl | ⟨_, hmem⟩)
      · exact .inr rfl
      · exact .inl hmem

theorem mem_entries_delete {m : InsertionMap κ α} {k : κ} {p : κ × α} :
    p ∈ (m.delete k).entries ↔ p.1 ≠ k ∧ p ∈ m.entries := by
  simp [delete, List.mem_filter, and_comm]

theorem get_set (m : InsertionMap κ α) (k k' : κ) (v : α) :
    (m.set k v).get k' = if k' = k then some v else m.get k' := by
  refine Option.ext fun w => ?_
  rw [get_eq_some_iff, mem_entries_set]
  split
  case isTrue hk => simp [hk, eq_comm]
  case isFalse hk =>
    rw [get_eq_some_iff]
    simp [hk]

@[simp] theorem get_set_self (m : InsertionMap κ α) (k : κ) (v : α) :
    (m.set k v).get k = some v := by
  rw [get_set, if_pos rfl]

theorem get_set_of_ne (m : InsertionMap κ α) {k k' : κ} (v : α) (h : k' ≠ k) :
    (m.set k v).get k' = m.get k' := by
  rw [get_set, if_neg h]

theorem get_delete (m : InsertionMap κ α) (k k' : κ) :
    (m.delete k).get k' = if k' = k then none else m.get k' := by
  refine Option.ext fun w => ?_
  rw [get_eq_some_iff, mem_entries_delete]
  split
  case isTrue hk => simp [hk]
  case isFalse hk =>
    rw [get_eq_some_iff]
    simp [hk]

@[simp] theorem get_delete_self (m : InsertionMap κ α) (k : κ) : (m.delete k).get k = none := by
  rw [get_delete, if_pos rfl]

theorem get_delete_of_ne (m : InsertionMap κ α) {k k' : κ} (h : k' ≠ k) :
    (m.delete k).get k' = m.get k' := by
  rw [get_delete, if_neg h]

/-- What is found after a deletion was there before. -/
theorem get_of_get_delete {m : InsertionMap κ α} {k k' : κ} {v : α}
    (h : (m.delete k).get k' = some v) : k' ≠ k ∧ m.get k' = some v := by
  rw [get_delete] at h
  split at h
  · cases h
  · exact ⟨‹_›, h⟩

theorem get_filter (m : InsertionMap κ α) (p : κ → α → Bool) (k : κ) :
    (m.filter p).get k = (m.get k).filter (p k) := by
  refine Option.ext fun v => ?_
  rw [get_eq_some_iff, Option.filter_eq_some_iff, get_eq_some_iff]
  simp [filter, List.mem_filter]

/-! ## Sizes -/

theorem get_mapValues (f : α → α) (m : InsertionMap κ α) (k : κ) :
    (m.mapValues f).get k = (m.get k).map f := by
  simp only [get, mapValues, List.find?_map, Option.map_map]
  rfl

theorem size_set_le (m : InsertionMap κ α) (k : κ) (v : α) : (m.set k v).size ≤ m.size + 1 := by
  simp only [size, set, setEntries]
  split
  · rw [List.length_map]
    exact Nat.le_succ _
  · rw [List.length_append, List.length_singleton]

omit [DecidableEq κ] in
theorem size_filter_le (m : InsertionMap κ α) (p : κ → α → Bool) : (m.filter p).size ≤ m.size :=
  List.length_filter_le _ _

theorem size_delete_le (m : InsertionMap κ α) (k : κ) : (m.delete k).size ≤ m.size :=
  List.length_filter_le _ _

theorem size_delete_lt {m : InsertionMap κ α} {k : κ} (h : k ∈ m.keys) :
    (m.delete k).size < m.size := by
  obtain ⟨p, hp, rfl⟩ := List.mem_map.mp h
  exact List.length_filter_lt_length_iff_exists.mpr ⟨p, hp, by simp⟩

theorem keys_delete_subset (m : InsertionMap κ α) (k : κ) : (m.delete k).keys ⊆ m.keys :=
  (List.filter_sublist.map Prod.fst).subset

theorem mem_keys_set {m : InsertionMap κ α} {k k' : κ} {v : α} :
    k' ∈ (m.set k v).keys ↔ k' = k ∨ k' ∈ m.keys := by
  simp only [keys, set, keys_setEntries]
  split
  case isTrue hk =>
    constructor
    · exact .inr
    · rintro (rfl | h)
      · exact hk
      · exact h
  case isFalse hk => simp [or_comm]

/-- A loop of deletions. -/
theorem foldl_delete_le (l : List (κ × α)) (m : InsertionMap κ α) :
    (l.foldl (fun m p => m.delete p.1) m).size ≤ m.size ∧
      (l.foldl (fun m p => m.delete p.1) m).keys ⊆ m.keys := by
  induction l generalizing m with
  | nil => exact ⟨le_rfl, List.Subset.refl _⟩
  | cons p l ih =>
      obtain ⟨hsize, hkeys⟩ := ih (m.delete p.1)
      exact ⟨hsize.trans (m.size_delete_le p.1), fun _ hk => m.keys_delete_subset p.1 (hkeys hk)⟩

/-! ## The order of the entries -/

omit [DecidableEq κ] in
/-- A key has one entry. -/
theorem eq_of_mem_entries {m : InsertionMap κ α} {p q : κ × α} (hp : p ∈ m.entries)
    (hq : q ∈ m.entries) (h : p.1 = q.1) : p = q :=
  List.inj_on_of_nodup_map m.nodup hp hq h

/-- A new key stands at the end. -/
theorem entries_set_of_absent {m : InsertionMap κ α} {k : κ} {v : α} (h : m.get k = none) :
    (m.set k v).entries = m.entries ++ [(k, v)] := by
  have hk : k ∉ m.entries.map Prod.fst := get_eq_none_iff.mp h
  simp only [set, setEntries, if_neg hk]

/-- A new key that is deleted leaves nothing behind. -/
theorem entries_delete_set_of_absent {m : InsertionMap κ α} {k : κ} {v : α}
    (h : m.get k = none) : ((m.set k v).delete k).entries = m.entries := by
  have hk : k ∉ m.entries.map Prod.fst := get_eq_none_iff.mp h
  have hkept : m.entries.filter (fun p => p.1 ≠ k) = m.entries := by
    apply List.filter_eq_self.mpr
    intro p hp
    exact decide_eq_true fun heq => hk (List.mem_map.mpr ⟨p, hp, heq⟩)
  change (m.set k v).entries.filter (fun p => p.1 ≠ k) = m.entries
  rw [entries_set_of_absent h, List.filter_append, hkept]
  simp

/-- Writing new keys, one after the other, appends them. -/
theorem entries_foldl_set {l : List (κ × α)} {m : InsertionMap κ α}
    (hnodup : (l.map Prod.fst).Nodup) (habsent : ∀ p ∈ l, m.get p.1 = none) :
    (l.foldl (fun m p => if m.has p.1 then m else m.set p.1 p.2) m).entries =
      m.entries ++ l := by
  induction l generalizing m with
  | nil => simp
  | cons p rest ih =>
      have hp : m.get p.1 = none := habsent p List.mem_cons_self
      have hhas : m.has p.1 = false := by simp [has, hp]
      rw [List.map_cons, List.nodup_cons] at hnodup
      have hrest : ∀ q ∈ rest, (m.set p.1 p.2).get q.1 = none := by
        intro q hq
        have hne : q.1 ≠ p.1 := fun heq => hnodup.1 (heq ▸ List.mem_map_of_mem hq)
        rw [get_set_of_ne _ _ hne]
        exact habsent q (List.mem_cons_of_mem p hq)
      rw [List.foldl_cons, if_neg (by simp [hhas]), ih hnodup.2 hrest,
        entries_set_of_absent hp, List.append_assoc]
      rfl

omit [DecidableEq κ] in
/-- A function that is `none` on all entries but one. -/
theorem filterMap_entries_of_unique {β : Type*} {m : InsertionMap κ α} {p : κ × α}
    {f : κ × α → Option β} (hp : p ∈ m.entries)
    (hnone : ∀ q ∈ m.entries, q.1 ≠ p.1 → f q = none) :
    m.entries.filterMap f = (f p).toList := by
  obtain ⟨before, after, hsplit⟩ := List.append_of_mem hp
  have hnodup := m.nodup
  rw [hsplit, List.map_append, List.map_cons, List.nodup_middle, List.nodup_cons] at hnodup
  have hskip : ∀ q ∈ before ++ after, f q = none := by
    intro q hq
    apply hnone q
    · rw [hsplit]
      rcases List.mem_append.mp hq with hq | hq
      · exact List.mem_append_left _ hq
      · exact List.mem_append_right _ (List.mem_cons_of_mem p hq)
    · intro heq
      apply hnodup.1
      rw [← List.map_append, ← heq]
      exact List.mem_map_of_mem hq
  have hbefore : before.filterMap f = [] :=
    List.filterMap_eq_nil_iff.mpr fun q hq => hskip q (List.mem_append_left _ hq)
  have hafter : after.filterMap f = [] :=
    List.filterMap_eq_nil_iff.mpr fun q hq => hskip q (List.mem_append_right _ hq)
  rw [hsplit, List.filterMap_append, hbefore, List.filterMap_cons, hafter]
  cases f p <;> rfl

/-- Maps with the same entries in any order have the same lookups. -/
theorem get_eq_of_mem_iff {m m' : InsertionMap κ α}
    (h : ∀ p, p ∈ m'.entries ↔ p ∈ m.entries) (k : κ) : m'.get k = m.get k := by
  apply Option.ext
  intro v
  rw [get_eq_some_iff, get_eq_some_iff, h]

end InsertionMap

/-! ## Maps that only evolve

A map evolves into another one along a relation if no key is lost and every value is followed by a
related one.
-/

namespace InsertionMap

variable {κ α : Type*} [DecidableEq κ] {R : α → α → Prop} {m m' m'' : InsertionMap κ α}

/-- No key is lost, and every value becomes a related one. -/
def Evolves (R : α → α → Prop) (m m' : InsertionMap κ α) : Prop :=
  ∀ k v, m.get k = some v → ∃ v', m'.get k = some v' ∧ R v v'

theorem evolves_refl [Std.Refl R] (m : InsertionMap κ α) : Evolves R m m :=
  fun _ v hv => ⟨v, hv, refl v⟩

theorem Evolves.trans [IsTrans α R] (h : Evolves R m m') (h' : Evolves R m' m'') :
    Evolves R m m'' := by
  intro k v hv
  obtain ⟨v', hv', hR⟩ := h k v hv
  obtain ⟨v'', hv'', hR'⟩ := h' k v' hv'
  exact ⟨v'', hv'', trans_of R hR hR'⟩

/-- A value is replaced by a related one. -/
theorem evolves_set [Std.Refl R] {k : κ} {v : α} (h : ∀ old, m.get k = some old → R old v) :
    Evolves R m (m.set k v) := by
  intro k' old hold
  rw [get_set]
  split_ifs with heq
  · subst heq
    exact ⟨v, rfl, h old hold⟩
  · exact ⟨old, hold, refl old⟩

theorem evolves_mapValues {f : α → α} (h : ∀ v, R v (f v)) : Evolves R m (m.mapValues f) := by
  intro k v hv
  exact ⟨f v, by rw [get_mapValues, hv]; rfl, h v⟩

end InsertionMap

/-! ## Sets in insertion order

A finite set that remembers the order of insertion, as the `Set` of ECMAScript does: adding a member
keeps its position, a new one goes to the end.  The size of such a set is the cardinality of the set
of its members.
-/

/-- The members in insertion order, none twice. -/
structure InsertionSet (α : Type*) where
  elements : List α
  nodup : elements.Nodup

namespace InsertionSet

variable {α : Type*}

def empty : InsertionSet α := ⟨[], List.nodup_nil⟩

def size (s : InsertionSet α) : Nat := s.elements.length

instance : Membership α (InsertionSet α) := ⟨fun s a => a ∈ s.elements⟩

theorem mem_def {s : InsertionSet α} {a : α} : a ∈ s ↔ a ∈ s.elements := Iff.rfl

@[simp] theorem notMem_empty (a : α) : a ∉ (empty : InsertionSet α) := List.not_mem_nil

variable [DecidableEq α] {s : InsertionSet α} {a b : α}

instance : Decidable (a ∈ s) := inferInstanceAs (Decidable (a ∈ s.elements))

def add (s : InsertionSet α) (a : α) : InsertionSet α where
  elements := if a ∈ s.elements then s.elements else s.elements ++ [a]
  nodup := by
    split_ifs with ha
    · exact s.nodup
    · exact List.nodup_append.mpr ⟨s.nodup, List.nodup_singleton a, fun b hb c hc heq =>
        ha (List.mem_singleton.mp hc ▸ heq ▸ hb)⟩

def delete (s : InsertionSet α) (a : α) : InsertionSet α where
  elements := s.elements.filter (· ≠ a)
  nodup := s.nodup.filter _

@[simp] theorem mem_add : b ∈ s.add a ↔ b = a ∨ b ∈ s := by
  simp only [mem_def, add]
  split_ifs with ha
  · constructor
    · exact .inr
    · rintro (rfl | hb)
      · exact ha
      · exact hb
  · rw [List.mem_append, List.mem_singleton, or_comm]

@[simp] theorem mem_delete : b ∈ s.delete a ↔ b ≠ a ∧ b ∈ s := by
  simp [mem_def, delete, and_comm]

/-- The members without their order. -/
def toFinset (s : InsertionSet α) : Finset α := s.elements.toFinset

@[simp] theorem mem_toFinset : a ∈ s.toFinset ↔ a ∈ s := List.mem_toFinset

theorem size_eq_card (s : InsertionSet α) : s.size = s.toFinset.card :=
  (List.toFinset_card_of_nodup s.nodup).symm

end InsertionSet

end Foundation
