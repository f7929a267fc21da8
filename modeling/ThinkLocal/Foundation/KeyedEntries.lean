import Mathlib.Data.List.Sort
import Mathlib.Tactic
import ThinkLocal.Foundation.InsertionMap

/-!
# Entries under keys

One entry for each key: the first one that is trusted, the newest one, and the order of the entries when one
of them is written again.
-/

namespace Foundation

/-! ## Trust on first use

Somebody presents evidence under a key.  Without a pin the evidence is trusted or not, and the first
that shows a single identity pins the key to it; from then on the evidence has to fit the pin.
-/

section

/-- What evidence shows. -/
structure FirstUse (Pin Evidence : Type*) where
  /-- Is it accepted without a pin? -/
  trusts : Evidence → Bool
  /-- Is it accepted under a pin? -/
  fits : Pin → Evidence → Bool
  /-- The identity to pin, if there is a single one. -/
  identity : Evidence → Option Pin
  trusts_of_identity : ∀ evidence pin, identity evidence = some pin → trusts evidence = true

namespace FirstUse

variable {Key Pin Evidence : Type*} [DecidableEq Key] (policy : FirstUse Pin Evidence)

/-- Is the evidence accepted, and the pins after that? -/
def present (pins : InsertionMap Key Pin) (key : Key) (evidence : Evidence) :
    Bool × InsertionMap Key Pin :=
  match pins.get key with
  | some pin => (policy.fits pin evidence, pins)
  | none =>
      (policy.trusts evidence,
        match policy.identity evidence with
        | some pin => pins.set key pin
        | none => pins)

/-- The pins after a list of presentations. -/
def pinsAfter (pins : InsertionMap Key Pin) (shown : List (Key × Evidence)) : InsertionMap Key Pin :=
  shown.foldl (fun pins p => (policy.present pins p.1 p.2).2) pins

variable {policy} {pins : InsertionMap Key Pin} {key : Key} {pin : Pin} {evidence : Evidence}

theorem present_of_pinned (h : pins.get key = some pin) :
    policy.present pins key evidence = (policy.fits pin evidence, pins) := by
  rw [present, h]

theorem present_of_unpinned (h : pins.get key = none) :
    (policy.present pins key evidence).1 = policy.trusts evidence := by
  rw [present, h]

/-- A pin is there, or it is the identity of evidence under its key. -/
theorem get_present (k : Key) :
    (policy.present pins key evidence).2.get k =
      (pins.get k).or (if k = key then policy.identity evidence else none) := by
  cases hpin : pins.get key with
  | some pin =>
      rw [present_of_pinned hpin]
      split_ifs with heq
      · rw [heq, hpin]
        rfl
      · simp
  | none =>
      rw [present, hpin]
      cases hid : policy.identity evidence with
      | none => simp
      | some pin =>
          dsimp only
          rw [InsertionMap.get_set]
          split_ifs with heq
          · rw [heq, hpin]
            rfl
          · simp

/-- A key is pinned to the first single identity among its own evidence. -/
theorem get_pinsAfter (pins : InsertionMap Key Pin) (shown : List (Key × Evidence)) (k : Key) :
    (policy.pinsAfter pins shown).get k =
      (pins.get k).or
        ((shown.filter fun p => p.1 = k).findSome? fun p => policy.identity p.2) := by
  induction shown generalizing pins with
  | nil => simp [pinsAfter]
  | cons p shown ih =>
      have hstep : policy.pinsAfter pins (p :: shown) =
          policy.pinsAfter (policy.present pins p.1 p.2).2 shown := rfl
      rw [hstep, ih, get_present, Option.or_assoc]
      by_cases heq : p.1 = k
      · rw [List.filter_cons_of_pos (by simpa using heq), List.findSome?_cons, if_pos heq.symm]
        cases policy.identity p.2 <;> rfl
      · rw [List.filter_cons_of_neg (by simpa using heq), if_neg (Ne.symm heq), Option.none_or]

/-- A pin stays. -/
theorem get_pinsAfter_of_pinned (shown : List (Key × Evidence)) (h : pins.get key = some pin) :
    (policy.pinsAfter pins shown).get key = some pin := by
  rw [get_pinsAfter, h]
  rfl

/-- What is refused pins nothing. -/
theorem present_of_refused (h : (policy.present pins key evidence).1 = false) :
    (policy.present pins key evidence).2 = pins := by
  cases hpin : pins.get key with
  | some pin => rw [present_of_pinned hpin]
  | none =>
      rw [present_of_unpinned hpin] at h
      rw [present, hpin]
      cases hid : policy.identity evidence with
      | none => rfl
      | some pin =>
          rw [policy.trusts_of_identity evidence pin hid] at h
          cases h

end FirstUse

end

/-! ## The newest item of every key

A map that keeps for every key the item with the greatest rank, and the selection of a number of
its items with the greatest ranks.
-/

section

variable {α κ ρ : Type*} [DecidableEq κ] [LinearOrder ρ] (key : α → κ) (rank : α → ρ)

/-- Of two items with one key the later one counts only if it has a greater rank. -/
def keepGreater (m : InsertionMap κ α) (a : α) : InsertionMap κ α :=
  match m.get (key a) with
  | none => m.set (key a) a
  | some b => if rank b < rank a then m.set (key a) a else m

/-- The map has for every key of the items one of those with the greatest rank. -/
structure HoldsNewest (m : InsertionMap κ α) (items : List α) : Prop where
  own : ∀ {k a}, m.get k = some a → key a = k ∧ a ∈ items
  newest : ∀ a ∈ items, ∃ b, m.get (key a) = some b ∧ rank a ≤ rank b

/-- The items with the greatest ranks, one of each key, in descending order: as many as there is
room for. -/
structure NewestPerKey (Valid : α → Prop) (room : ℕ∞) (kept : List α) : Prop where
  length : (kept.length : ℕ∞) ≤ room
  nodup : (kept.map key).Nodup
  sorted : kept.Pairwise fun a b => rank b ≤ rank a
  valid : ∀ a ∈ kept, Valid a
  newest : ∀ a ∈ kept, ∀ b, Valid b → key b = key a → rank b ≤ rank a
  /-- A key is left out only for as many others as there is room for. -/
  leftOut : ∀ b, Valid b → key b ∉ kept.map key →
    kept.length = room ∧ ∀ a ∈ kept, rank b ≤ rank a

variable {key rank} {m : InsertionMap κ α} {items kept : List α} {room : ℕ∞} {a : α}

omit [DecidableEq κ] in
theorem NewestPerKey.congr {Valid Valid' : α → Prop} (hvalid : ∀ a, Valid a ↔ Valid' a)
    (h : NewestPerKey key rank Valid room kept) : NewestPerKey key rank Valid' room kept := by
  obtain rfl : Valid = Valid' := funext fun a => propext (hvalid a)
  exact h

theorem HoldsNewest.empty : HoldsNewest key rank (.empty : InsertionMap κ α) [] := by
  constructor
  · intro k a h
    cases h
  · intro a h
    cases h

theorem HoldsNewest.keepGreater (h : HoldsNewest key rank m items) (a : α) :
    HoldsNewest key rank (keepGreater key rank m a) (items ++ [a]) := by
  have hset : (∀ b, m.get (key a) = some b → rank b ≤ rank a) →
      HoldsNewest key rank (m.set (key a) a) (items ++ [a]) := by
    intro hbest
    constructor
    · intro k b hget
      rw [InsertionMap.get_set] at hget
      split_ifs at hget with hk
      · obtain rfl := Option.some.inj hget
        exact ⟨hk.symm, by simp⟩
      · obtain ⟨hkey, hmem⟩ := h.own hget
        exact ⟨hkey, List.mem_append_left _ hmem⟩
    · intro b hb
      rw [InsertionMap.get_set]
      rcases List.mem_append.mp hb with hb | hb
      · obtain ⟨c, hget, hle⟩ := h.newest b hb
        split_ifs with hk
        · exact ⟨a, rfl, hle.trans (hbest c (hk ▸ hget))⟩
        · exact ⟨c, hget, hle⟩
      · obtain rfl := List.mem_singleton.mp hb
        exact ⟨b, if_pos rfl, le_rfl⟩
  unfold Foundation.keepGreater
  split
  · next hnone =>
      refine hset fun b hb => ?_
      rw [hnone] at hb
      cases hb
  · next b hget =>
      split_ifs with hlt
      · refine hset fun c hc => ?_
        obtain rfl := Option.some.inj (hget.symm.trans hc)
        exact hlt.le
      · refine ⟨fun hk => ⟨(h.own hk).1, List.mem_append_left _ (h.own hk).2⟩, fun c hc => ?_⟩
        rcases List.mem_append.mp hc with hc | hc
        · exact h.newest c hc
        · obtain rfl := List.mem_singleton.mp hc
          exact ⟨b, hget, not_lt.mp hlt⟩

theorem holdsNewest_foldl (items : List α) :
    HoldsNewest key rank (items.foldl (Foundation.keepGreater key rank) .empty) items := by
  induction items using List.reverseRecOn with
  | nil => exact .empty
  | append_singleton items a ih =>
      rw [List.foldl_append]
      exact ih.keepGreater a

variable (rank) in
theorem pairwise_descending (l : List α) :
    (l.insertionSort fun a b => rank b ≤ rank a).Pairwise fun a b => rank b ≤ rank a := by
  have htotal : Std.Total fun a b : α => rank b ≤ rank a :=
    ⟨fun a b => le_total (rank b) (rank a)⟩
  have htrans : IsTrans α fun a b => rank b ≤ rank a := ⟨fun _ _ _ hab hbc => hbc.trans hab⟩
  exact List.pairwise_insertionSort _ l

theorem HoldsNewest.map_values (h : HoldsNewest key rank m items) : m.values.map key = m.keys := by
  rw [InsertionMap.values, InsertionMap.keys, List.map_map]
  refine List.map_congr_left fun p hp => ?_
  exact (h.own (InsertionMap.get_eq_some_iff.mpr hp)).1

/-- The first items of the map in descending order are the selection. -/
theorem HoldsNewest.newestPerKey (h : HoldsNewest key rank m items) {n : ℕ}
    (hn : (n : ℕ∞) ≤ room) (hroom : n = room ∨ m.size ≤ n) :
    NewestPerKey key rank (· ∈ items) room
      ((m.values.insertionSort fun a b => rank b ≤ rank a).take n) := by
  have hperm : (m.values.insertionSort fun a b => rank b ≤ rank a).Perm m.values :=
    List.perm_insertionSort _ _
  have hsorted := pairwise_descending rank m.values
  generalize (m.values.insertionSort fun a b => rank b ≤ rank a) = sorted at hperm hsorted
  have hget : ∀ {a}, a ∈ sorted → m.get (key a) = some a := by
    intro a ha
    obtain ⟨k, hk⟩ := InsertionMap.mem_values_iff.mp (hperm.mem_iff.mp ha)
    rwa [(h.own hk).1]
  have hnodup : (sorted.map key).Nodup := by
    rw [(hperm.map key).nodup_iff, h.map_values]
    exact m.nodup
  refine ⟨?_, ?_, hsorted.sublist (List.take_sublist n _), ?_, ?_, ?_⟩
  · refine le_trans ?_ hn
    exact_mod_cast List.length_take_le n sorted
  · exact hnodup.sublist ((List.take_sublist n sorted).map key)
  · intro a ha
    exact (h.own (hget (List.mem_of_mem_take ha))).2
  · intro a ha b hb hkey
    obtain ⟨c, hc, hle⟩ := h.newest b hb
    rw [hkey, hget (List.mem_of_mem_take ha)] at hc
    obtain rfl := Option.some.inj hc
    exact hle
  · intro b hb hout
    obtain ⟨c, hc, hle⟩ := h.newest b hb
    -- the newest item of the key lies behind the first ones
    have hcmem : c ∈ sorted := hperm.mem_iff.mpr (InsertionMap.mem_values_iff.mpr ⟨_, hc⟩)
    have hdrop : c ∈ sorted.drop n := by
      rw [← List.take_append_drop n sorted, List.mem_append] at hcmem
      refine hcmem.resolve_left fun htake => hout ?_
      rw [← (h.own hc).1]
      exact List.mem_map_of_mem htake
    have hlength : n < sorted.length := by
      by_contra hle
      rw [List.drop_of_length_le (not_lt.mp hle)] at hdrop
      cases hdrop
    have hsize : ¬ m.size ≤ n := by
      rw [InsertionMap.size, ← List.length_map (f := Prod.snd)]
      rw [hperm.length_eq] at hlength
      exact not_le.mpr hlength
    refine ⟨?_, fun a ha => hle.trans ?_⟩
    · rw [List.length_take, min_eq_left hlength.le]
      exact hroom.resolve_right hsize
    · rw [← List.take_append_drop n sorted, List.pairwise_append] at hsorted
      exact hsorted.2.2 a ha c hdrop

end

/-! ## Moving elements to the end of a list

A map that keeps its insertion order moves a key to the end when the key is deleted and
written again.  Readers that only count or collect do not see this, a reader that takes
the first match may, and a reader that lists its matches sees it unless nothing that it
lists stood behind a moved element.
-/

variable {α β : Type*}

/-- The elements with the property stand at the end, otherwise the order is kept. -/
def moveToEnd (q : α → Bool) (l : List α) : List α :=
  (l.filter fun x => !q x) ++ l.filter q

variable {q p : α → Bool} {l : List α}

theorem moveToEnd_perm (q : α → Bool) (l : List α) : (moveToEnd q l).Perm l := by
  have hperm := List.filter_append_perm (fun x => !q x) l
  simp only [Bool.not_not] at hperm
  exact hperm

/-- A reader that passes over the moved elements does not see the move. -/
theorem filterMap_moveToEnd_of_none {f : α → Option β} (h : ∀ x ∈ l, q x = true → f x = none) :
    (moveToEnd q l).filterMap f = l.filterMap f := by
  have hmoved : (l.filter q).filterMap f = [] := by
    rw [List.filterMap_eq_nil_iff]
    intro x hx
    obtain ⟨hmem, hq⟩ := List.mem_filter.mp hx
    exact h x hmem hq
  rw [moveToEnd, List.filterMap_append, hmoved, List.append_nil, List.filterMap_filter]
  apply List.filterMap_congr
  intro x hx
  cases hq : q x with
  | false => rfl
  | true => simp [h x hx hq]

/-- The first match is the first one that stays, or else the first of all. -/
theorem find?_moveToEnd (p : α → Bool) :
    (moveToEnd q l).find? p = ((l.filter fun x => !q x).find? p).or (l.find? p) := by
  rw [moveToEnd, List.find?_append]
  cases hkept : (l.filter fun x => !q x).find? p with
  | some x => rfl
  | none =>
      -- Without a match among the elements that stay, all matches are moved.
      rw [Option.none_or, Option.none_or, List.find?_filter]
      apply List.find?_congr
      intro x hx
      cases hp : p x with
      | false => simp
      | true =>
          by_contra hq
          have hmem : x ∈ l.filter fun x => !q x := List.mem_filter.mpr ⟨hx, by simpa using hq⟩
          have hnot := List.find?_eq_none.mp hkept x hmem
          exact hnot hp

/-- A single element that is listed may only move if nothing listed stands behind it. -/
theorem filterMap_moveToEnd_eq_iff {f : α → Option β} {before after : List α} {x : α} {y : β}
    (hbefore : ∀ z ∈ before, q z = false) (hafter : ∀ z ∈ after, q z = false)
    (hx : q x = true) (hy : f x = some y) (hne : ∀ z ∈ after, f z ≠ some y) :
    (moveToEnd q (before ++ x :: after)).filterMap f = (before ++ x :: after).filterMap f ↔
      ∀ z ∈ after, f z = none := by
  have hkept : (before ++ x :: after).filter (fun z => !q z) = before ++ after := by
    rw [List.filter_append, List.filter_cons_of_neg (by simp [hx])]
    congr 1
    · exact List.filter_eq_self.mpr fun z hz => by simp [hbefore z hz]
    · exact List.filter_eq_self.mpr fun z hz => by simp [hafter z hz]
  have hmoved : (before ++ x :: after).filter q = [x] := by
    have hnone : before.filter q = [] ∧ after.filter q = [] := by
      constructor
      · exact List.filter_eq_nil_iff.mpr fun z hz => by simp [hbefore z hz]
      · exact List.filter_eq_nil_iff.mpr fun z hz => by simp [hafter z hz]
    rw [List.filter_append, List.filter_cons_of_pos hx, hnone.1, hnone.2, List.nil_append]
  rw [moveToEnd, hkept, hmoved, List.filterMap_append, List.filterMap_append,
    List.filterMap_append, List.filterMap_cons_some hy, List.filterMap_cons_some hy,
    List.filterMap_nil, List.append_assoc, List.append_cancel_left_eq,
    ← List.filterMap_eq_nil_iff]
  constructor
  · intro heq
    cases hlist : after.filterMap f with
    | nil => rfl
    | cons z rest =>
        -- The first one listed behind `x` would have to be `x` itself.
        rw [hlist, List.cons_append] at heq
        have hmem : z ∈ after.filterMap f := by simp [hlist]
        obtain ⟨w, hw, hz⟩ := List.mem_filterMap.mp hmem
        obtain ⟨rfl, -⟩ := List.cons.inj heq
        exact absurd hz (hne w hw)
  · intro hnil
    rw [hnil]
    rfl

/-- A sublist of a list of pairs without a repeated key is what its keys select. -/
theorem filter_key_mem_sublist {κ : Type*} [DecidableEq κ] {l l' : List (κ × α)}
    (hsub : l'.Sublist l) (hnodup : (l.map Prod.fst).Nodup) :
    l.filter (fun p => p.1 ∈ l'.map Prod.fst) = l' := by
  induction hsub with
  | slnil => rfl
  | cons x hrest ih =>
      rw [List.map_cons, List.nodup_cons] at hnodup
      have hx : x.1 ∉ List.map Prod.fst _ := fun hmem => hnodup.1 ((hrest.map Prod.fst).subset hmem)
      rw [List.filter_cons_of_neg (by simpa using hx), ih hnodup.2]
  | cons_cons x hrest ih =>
      rw [List.map_cons, List.nodup_cons] at hnodup
      rw [List.filter_cons_of_pos (by simp)]
      congr 1
      conv_rhs => rw [← ih hnodup.2]
      apply List.filter_congr
      intro y hy
      have hne : y.1 ≠ x.1 := fun heq => hnodup.1 (heq ▸ List.mem_map_of_mem hy)
      simp [hne]

end Foundation
