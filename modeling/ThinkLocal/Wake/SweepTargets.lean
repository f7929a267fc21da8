import ThinkLocal.Foundation.Except
import ThinkLocal.Foundation.InsertionMap
import ThinkLocal.Js.Number
import ThinkLocal.Js.Value
import ThinkLocal.Registry.CapabilityHash

/-!
# The targets of a sweep

`computeSweepTargets` selects from the live entries those with unread mail.  Entries are values of any
type, and the counter may throw or give anything.  What the function does not catch is an exception of
an entry itself, when one of its two fields is read.

* `selectEntry_spec`: what one entry adds to the selection, for the first entry of each instance that is
  counted
* `computeSweepTargets_of_readable`: the selection of all entries, in the order of the instances
* `sweep_selection_iff`: the function keeps its promises exactly if no field of an entry throws
-/

namespace ThinkLocal.Wake

open Foundation Js Registry CapabilityRegistry

/-- What `unreadFor` does when it is called for an entry. -/
inductive Count
  | thrown
  | number (value : Number)
  /-- It returns a value of another type. -/
  | other

/-- The count, if it is a finite number above 0. -/
def Count.unread : Count → Option ℚ
  | .number (.finite value) => if value ≤ 0 then none else some value
  | _ => none

structure SweepTarget where
  instanceId : String
  spiffeUri : String
  unread : ℚ
deriving DecidableEq

/-- `out` and `seen`. -/
structure SweepSelection where
  out : List SweepTarget
  seen : InsertionSet String

namespace SweepSelection

def empty : SweepSelection := ⟨[], .empty⟩

end SweepSelection

/-- The id and the URI of an entry, `none` if it is passed over before `seen` is asked. -/
def readEntry (entry : JsValue) : Except JsValue (Option (String × String)) :=
  -- `undefined` is of another type
  if entry.isNull ∨ entry.typeof ≠ "object" then .ok none
  else
    (entry.get "instanceId" 0).bind fun instanceId =>
      (entry.get "spiffeUri" 0).map fun spiffeUri =>
        match instanceId, spiffeUri with
        | .string id, .string uri => if id = "" ∨ uri = "" then none else some (id, uri)
        | _, _ => none

/-- One round of the loop, for the entry at a place. -/
def selectEntry (unreadFor : Nat → String → Count) (s : SweepSelection) (place : Nat)
    (entry : JsValue) : Except JsValue SweepSelection :=
  (readEntry entry).map fun
    | none => s
    | some (instanceId, spiffeUri) =>
        if instanceId ∈ s.seen then s
        else
          match (unreadFor place instanceId).unread with
          | none => s
          | some unread => ⟨s.out ++ [⟨instanceId, spiffeUri, unread⟩], s.seen.add instanceId⟩

/-- The loop from a place on. -/
def selectFrom (unreadFor : Nat → String → Count) :
    SweepSelection → Nat → List JsValue → Except JsValue SweepSelection
  | s, _, [] => .ok s
  | s, place, entry :: rest =>
      (selectEntry unreadFor s place entry).bind fun s' => selectFrom unreadFor s' (place + 1) rest

/-- `live` is `none` if it is not an array.  `unreadFor` answers for an entry at a place, since a
counter may answer each call as it likes. -/
def computeSweepTargets (live : Option (List JsValue)) (unreadFor : Nat → String → Count) :
    Except JsValue (List SweepTarget) :=
  match live with
  | none => .ok []
  | some entries => (selectFrom unreadFor .empty 0 entries).map fun s =>
      s.out.mergeSort fun a b => unitsLe a.instanceId b.instanceId

/-! ## What is promised -/

/-- An object with these two fields. -/
structure HasFields (entry : JsValue) (instanceId spiffeUri : String) : Prop where
  object : entry.typeof = "object"
  instanceId : entry.get "instanceId" 0 = .ok (.string instanceId)
  spiffeUri : entry.get "spiffeUri" 0 = .ok (.string spiffeUri)

/-- Reading the fields of an object does not throw. -/
def Readable (entry : JsValue) : Prop :=
  entry ≠ .null → entry.typeof = "object" →
    (∃ value, entry.get "instanceId" 0 = .ok value) ∧ ∃ value, entry.get "spiffeUri" 0 = .ok value

/-- The entry at the place has the id and the URI of the target, and the counter gives its number. -/
structure Awaits (entries : List JsValue) (unreadFor : Nat → String → Count) (place : Nat)
    (target : SweepTarget) : Prop where
  fields : ∃ entry, entries[place]? = some entry ∧ HasFields entry target.instanceId target.spiffeUri
  named : target.instanceId ≠ ""
  routable : target.spiffeUri ≠ ""
  counted : unreadFor place target.instanceId = .number (.finite target.unread)
  positive : 0 < target.unread

/-- The target is that of the first entry with its id. -/
def IsFirst (entries : List JsValue) (unreadFor : Nat → String → Count) (target : SweepTarget) : Prop :=
  ∃ place, Awaits entries unreadFor place target ∧
    ∀ earlier < place, ∀ other, Awaits entries unreadFor earlier other →
      other.instanceId ≠ target.instanceId

/-- No two entries have the same id. -/
def DistinctIds (entries : List JsValue) : Prop :=
  entries.Pairwise fun a b => ∀ id, a.get "instanceId" 0 = .ok (.string id) →
    b.get "instanceId" 0 ≠ .ok (.string id)

/-- The function returns the first entry of each instance with unread mail, in the order of the ids;
the order of the entries does not matter if their ids are distinct and the counter looks at nothing else. -/
structure Selects (entries : List JsValue) (unreadFor : Nat → String → Count) : Prop where
  returns : ∃ targets, computeSweepTargets (some entries) unreadFor = .ok targets ∧
    (targets.Pairwise fun a b => codeUnits a.instanceId < codeUnits b.instanceId) ∧
    (∀ id, (∃ target ∈ targets, target.instanceId = id) ↔
      ∃ place target, Awaits entries unreadFor place target ∧ target.instanceId = id) ∧
    ∀ target ∈ targets, IsFirst entries unreadFor target
  any_order : ∀ entries' : List JsValue, entries'.Perm entries → DistinctIds entries →
    ∀ count : String → Count, unreadFor = (fun _ => count) →
      computeSweepTargets (some entries') unreadFor = computeSweepTargets (some entries) unreadFor

/-! ## Entries -/

variable {entry : JsValue} {entries entries' done : List JsValue} {unreadFor : Nat → String → Count}
  {instanceId spiffeUri : String} {s s' : SweepSelection} {place : Nat} {target other : SweepTarget}

theorem Count.unread_eq_some_iff {count : Count} {value : ℚ} :
    count.unread = some value ↔ count = .number (.finite value) ∧ 0 < value := by
  rcases count with _ | value' | _
  · exact ⟨fun h => (nomatch h), fun h => nomatch h.1⟩
  · cases value' with
    | finite value' =>
        rw [unread]
        split_ifs with hle
        · constructor
          · exact fun h => (nomatch h)
          · rintro ⟨heq, hpos⟩
            obtain rfl := Number.finite.inj (Count.number.inj heq)
            exact absurd hpos (not_lt.mpr hle)
        · constructor
          · intro h
            obtain rfl := Option.some.inj h
            exact ⟨rfl, not_le.mp hle⟩
          · rintro ⟨heq, -⟩
            rw [Number.finite.inj (Count.number.inj heq)]
    | nan | negInfinity | infinity =>
        exact ⟨fun h => (nomatch h), fun h => nomatch Count.number.inj h.1⟩
  · exact ⟨fun h => (nomatch h), fun h => nomatch h.1⟩

theorem readEntry_eq_some_iff :
    readEntry entry = .ok (some (instanceId, spiffeUri)) ↔
      HasFields entry instanceId spiffeUri ∧ instanceId ≠ "" ∧ spiffeUri ≠ "" := by
  constructor
  · intro h
    rw [readEntry] at h
    split_ifs at h with hskip
    · cases Except.ok.inj h
    · obtain ⟨-, hobject⟩ := not_or.mp hskip
      obtain ⟨id, hid, h⟩ := Foundation.Except.bind_eq_ok_iff.mp h
      obtain ⟨uri, huri, h⟩ := Foundation.Except.map_eq_ok_iff.mp h
      split at h
      · split_ifs at h with hempty
        obtain ⟨rfl, rfl⟩ := Prod.mk.inj (Option.some.inj h)
        exact ⟨⟨not_not.mp hobject, hid, huri⟩, not_or.mp hempty⟩
      · cases h
  · rintro ⟨h, hid, huri⟩
    have hnull : entry.isNull ≠ true := by
      intro hnull
      obtain rfl := JsValue.isNull_iff.mp hnull
      cases h.instanceId
    rw [readEntry, if_neg (not_or_intro hnull (not_not.mpr h.object)), h.instanceId, h.spiffeUri]
    simp [Except.bind, Except.map, hid, huri]

theorem readable_iff : Readable entry ↔ ∃ fields, readEntry entry = .ok fields := by
  rw [Readable, readEntry]
  split_ifs with hskip
  · refine iff_of_true (fun hnull hobject => ?_) ⟨none, rfl⟩
    exact absurd hskip (not_or_intro (fun h => hnull (JsValue.isNull_iff.mp h)) (not_not.mpr hobject))
  · obtain ⟨hnull, hobject⟩ := not_or.mp hskip
    constructor
    · intro h
      obtain ⟨⟨id, hid⟩, uri, huri⟩ :=
        h (fun heq => hnull (JsValue.isNull_iff.mpr heq)) (not_not.mp hobject)
      rw [hid, huri]
      exact ⟨_, rfl⟩
    · rintro ⟨fields, hfields⟩ - -
      obtain ⟨id, hid, hfields⟩ := Foundation.Except.bind_eq_ok_iff.mp hfields
      obtain ⟨uri, huri, -⟩ := Foundation.Except.map_eq_ok_iff.mp hfields
      exact ⟨⟨id, hid⟩, uri, huri⟩

/-- The target of an entry, if the fields and the count are there. -/
theorem awaits_iff : Awaits entries unreadFor place target ↔
    ∃ entry, entries[place]? = some entry ∧
      readEntry entry = .ok (some (target.instanceId, target.spiffeUri)) ∧
      (unreadFor place target.instanceId).unread = some target.unread := by
  simp only [readEntry_eq_some_iff, Count.unread_eq_some_iff]
  constructor
  · rintro ⟨⟨entry, hentry, hfields⟩, hid, huri, hcounted, hpos⟩
    exact ⟨entry, hentry, ⟨hfields, hid, huri⟩, hcounted, hpos⟩
  · rintro ⟨entry, hentry, ⟨hfields, hid, huri⟩, hcounted, hpos⟩
    exact ⟨⟨entry, hentry, hfields⟩, hid, huri, hcounted, hpos⟩

/-- What awaits in a longer list awaits in the first entries or is the last one. -/
theorem awaits_concat : Awaits (done ++ [entry]) unreadFor place target ↔
    Awaits done unreadFor place target ∨
      (place = done.length ∧ readEntry entry = .ok (some (target.instanceId, target.spiffeUri)) ∧
        (unreadFor place target.instanceId).unread = some target.unread) := by
  rw [awaits_iff, awaits_iff]
  rcases lt_trichotomy place done.length with hlt | rfl | hlt
  · rw [List.getElem?_append_left hlt]
    exact ⟨.inl, fun h => h.resolve_right fun h => absurd h.1 hlt.ne⟩
  · simp
  · have hbeyond : (done ++ [entry])[place]? = none := by
      rw [List.getElem?_eq_none_iff]
      simpa using hlt
    have hbeyond' : done[place]? = none := List.getElem?_eq_none_iff.mpr hlt.le
    simp [hbeyond, hbeyond', hlt.ne']

theorem Awaits.lt (h : Awaits entries unreadFor place target) : place < entries.length := by
  obtain ⟨e, he, -⟩ := h.fields
  exact (List.getElem?_eq_some_iff.mp he).1

/-- Where an instance awaits, there is a first entry of it. -/
theorem exists_isFirst_iff :
    (∃ target, IsFirst entries unreadFor target ∧ target.instanceId = instanceId) ↔
      ∃ place target, Awaits entries unreadFor place target ∧ target.instanceId = instanceId := by
  classical
  constructor
  · rintro ⟨target, ⟨place, hawaits, -⟩, hid⟩
    exact ⟨place, target, hawaits, hid⟩
  · intro h
    obtain ⟨target, hawaits, hid⟩ := Nat.find_spec h
    refine ⟨target, ⟨_, hawaits, fun earlier hearlier other hother heq => ?_⟩, hid⟩
    exact Nat.find_min h hearlier ⟨other, hother, heq.trans hid⟩

/-- One more entry is the first of its instance, if that has not awaited before. -/
theorem isFirst_concat : IsFirst (done ++ [entry]) unreadFor target ↔
    IsFirst done unreadFor target ∨
      (readEntry entry = .ok (some (target.instanceId, target.spiffeUri)) ∧
        (unreadFor done.length target.instanceId).unread = some target.unread) ∧
      ∀ other, IsFirst done unreadFor other → other.instanceId ≠ target.instanceId := by
  constructor
  · rintro ⟨place, hawaits, hfirst⟩
    have hbefore (earlier : Nat) (hearlier : earlier < place) (other : SweepTarget)
        (hother : Awaits done unreadFor earlier other) : other.instanceId ≠ target.instanceId :=
      hfirst earlier hearlier other (awaits_concat.mpr (.inl hother))
    -- the target waits at an earlier place or at the last one
    rcases awaits_concat.mp hawaits with hdone | ⟨rfl, hlast⟩
    · exact .inl ⟨place, hdone, hbefore⟩
    · refine .inr ⟨hlast, fun other ⟨earlier, hother, _⟩ => ?_⟩
      exact hbefore earlier hother.lt other hother
  · rintro (⟨place, hawaits, hfirst⟩ | ⟨hlast, hnew⟩)
    · refine ⟨place, awaits_concat.mpr (.inl hawaits), fun earlier hearlier other hother => ?_⟩
      rcases awaits_concat.mp hother with hother | ⟨rfl, -⟩
      · exact hfirst earlier hearlier other hother
      · exact absurd (hearlier.trans hawaits.lt) (lt_irrefl _)
    · refine ⟨done.length, awaits_concat.mpr (.inr ⟨rfl, hlast⟩), fun earlier hearlier other hother => ?_⟩
      rcases awaits_concat.mp hother with hother | ⟨rfl, -⟩
      · intro heq
        obtain ⟨first, hfirst, hid⟩ := exists_isFirst_iff.mpr ⟨earlier, other, hother, rfl⟩
        exact hnew first hfirst (hid.trans heq)
      · exact absurd hearlier (lt_irrefl _)

/-! ## The loop -/

/-- The selection holds the first entries of the entries that were visited. -/
structure Selected (unreadFor : Nat → String → Count) (done : List JsValue) (s : SweepSelection) :
    Prop where
  out : ∀ target, target ∈ s.out ↔ IsFirst done unreadFor target
  seen : ∀ id, id ∈ s.seen ↔ ∃ target ∈ s.out, target.instanceId = id
  distinct : (s.out.map SweepTarget.instanceId).Nodup

theorem selected_empty : Selected unreadFor [] .empty where
  out target := by
    refine ⟨fun h => (nomatch h), ?_⟩
    rintro ⟨place, hawaits, -⟩
    exact absurd hawaits.lt (Nat.not_lt_zero _)
  seen id := by simp [SweepSelection.empty]
  distinct := List.nodup_nil

/-- Nothing is added for an entry that is no new target. -/
theorem Selected.skip (h : Selected unreadFor done s)
    (hskip : ∀ target : SweepTarget, readEntry entry = .ok (some (target.instanceId, target.spiffeUri)) →
      (unreadFor done.length target.instanceId).unread = some target.unread →
      target.instanceId ∈ s.seen) : Selected unreadFor (done ++ [entry]) s where
  out target := by
    rw [h.out, isFirst_concat]
    refine ⟨.inl, fun hfirst => hfirst.resolve_right ?_⟩
    rintro ⟨⟨hread, hunread⟩, hnew⟩
    obtain ⟨other, hother, hid⟩ := (h.seen _).mp (hskip target hread hunread)
    exact hnew other ((h.out other).mp hother) hid
  seen := h.seen
  distinct := h.distinct

theorem Selected.add {unread : ℚ} (h : Selected unreadFor done s)
    (hread : readEntry entry = .ok (some (instanceId, spiffeUri)))
    (hunread : (unreadFor done.length instanceId).unread = some unread) (hnew : instanceId ∉ s.seen) :
    Selected unreadFor (done ++ [entry])
      ⟨s.out ++ [⟨instanceId, spiffeUri, unread⟩], s.seen.add instanceId⟩ where
  out target := by
    rw [List.mem_append, List.mem_singleton, h.out, isFirst_concat, hread]
    refine or_congr_right ⟨?_, ?_⟩
    · rintro rfl
      -- no entry before has the id, or it would have been seen
      refine ⟨⟨rfl, hunread⟩, fun other hother hid => hnew ((h.seen _).mpr ?_)⟩
      exact ⟨other, (h.out other).mpr hother, hid⟩
    · rintro ⟨⟨hfields, hcount⟩, -⟩
      obtain ⟨rfl, rfl⟩ := Prod.mk.inj (Option.some.inj (Except.ok.inj hfields))
      rw [hunread] at hcount
      obtain rfl := Option.some.inj hcount
      rfl
  seen id := by
    rw [InsertionSet.mem_add, h.seen]
    simp only [List.mem_append, List.mem_singleton]
    constructor
    · rintro (rfl | ⟨target, htarget, hid⟩)
      · exact ⟨_, .inr rfl, rfl⟩
      · exact ⟨target, .inl htarget, hid⟩
    · rintro ⟨target, htarget | rfl, hid⟩
      · exact .inr ⟨target, htarget, hid⟩
      · exact .inl hid.symm
  distinct := by
    rw [List.map_append, List.map_singleton, List.nodup_append]
    refine ⟨h.distinct, List.nodup_singleton _, fun id hid id' hid' heq => ?_⟩
    obtain ⟨target, htarget, rfl⟩ := List.mem_map.mp hid
    obtain rfl := List.mem_singleton.mp hid'
    exact hnew ((h.seen _).mpr ⟨target, htarget, heq⟩)

/-- One round of the loop goes on with the selection. -/
theorem selectEntry_spec (h : Selected unreadFor done s) (hread : Readable entry) :
    ∃ s', selectEntry unreadFor s done.length entry = .ok s' ∧
      Selected unreadFor (done ++ [entry]) s' := by
  obtain ⟨fields, hfields⟩ := readable_iff.mp hread
  rw [selectEntry, hfields, Except.map]
  refine ⟨_, rfl, ?_⟩
  rcases fields with _ | ⟨instanceId, spiffeUri⟩
  · exact h.skip fun target hread _ => by
      rw [hfields] at hread
      cases Except.ok.inj hread
  · have hsame {target : SweepTarget}
        (hread : readEntry entry = .ok (some (target.instanceId, target.spiffeUri))) :
        target.instanceId = instanceId := by
      rw [hfields] at hread
      exact (Prod.mk.inj (Option.some.inj (Except.ok.inj hread))).1.symm
    dsimp only
    -- an instance is asked about at its first entry only
    split_ifs with hseen
    · exact h.skip fun target hread _ => by rwa [hsame hread]
    · cases hunread : (unreadFor done.length instanceId).unread with
      | none =>
          refine h.skip fun target hread hcount => ?_
          rw [hsame hread, hunread] at hcount
          cases hcount
      | some unread => exact h.add hfields hunread hseen

theorem selectFrom_spec (h : Selected unreadFor done s) (hread : ∀ entry ∈ entries, Readable entry) :
    ∃ s', selectFrom unreadFor s done.length entries = .ok s' ∧
      Selected unreadFor (done ++ entries) s' := by
  induction entries generalizing done s with
  | nil => exact ⟨s, rfl, by rwa [List.append_nil]⟩
  | cons entry entries ih =>
      obtain ⟨next, hnext, hselected⟩ := selectEntry_spec h (hread entry List.mem_cons_self)
      obtain ⟨s', hs', hselected'⟩ := ih hselected fun e he => hread e (List.mem_cons_of_mem _ he)
      rw [List.length_append, List.length_singleton] at hs'
      refine ⟨s', ?_, by rwa [List.append_cons]⟩
      rw [selectFrom, hnext]
      exact hs'

/-- The loop ends with an exception of an entry. -/
theorem readable_of_selectFrom (h : selectFrom unreadFor s place entries = .ok s') :
    ∀ entry ∈ entries, Readable entry := by
  induction entries generalizing s place with
  | nil => exact fun _ he => (nomatch he)
  | cons entry entries ih =>
      obtain ⟨next, hnext, hrest⟩ := Foundation.Except.bind_eq_ok_iff.mp h
      obtain ⟨fields, hfields, -⟩ := Foundation.Except.map_eq_ok_iff.mp hnext
      exact List.forall_mem_cons.mpr ⟨readable_iff.mpr ⟨fields, hfields⟩, ih hrest⟩

/-! ## The result -/

/-- The order of the result. -/
def byInstanceId (a b : SweepTarget) : Bool := unitsLe a.instanceId b.instanceId

/-- Sorted targets with distinct ids are strictly increasing. -/
theorem pairwise_mergeSort {targets : List SweepTarget}
    (h : (targets.map SweepTarget.instanceId).Nodup) :
    (targets.mergeSort byInstanceId).Pairwise fun a b =>
      codeUnits a.instanceId < codeUnits b.instanceId := by
  have htrans (a b c : SweepTarget) (hab : byInstanceId a b = true) (hbc : byInstanceId b c = true) :
      byInstanceId a c = true :=
    decide_eq_true ((of_decide_eq_true hab).trans (of_decide_eq_true hbc))
  have htotal (a b : SweepTarget) : (byInstanceId a b || byInstanceId b a) = true := by
    rw [Bool.or_eq_true]
    exact (le_total (codeUnits a.instanceId) (codeUnits b.instanceId)).imp decide_eq_true
      decide_eq_true
  have hsorted := List.pairwise_mergeSort htrans htotal targets
  have hdistinct : (targets.mergeSort byInstanceId).Pairwise fun a b =>
      a.instanceId ≠ b.instanceId :=
    List.pairwise_map.mp (((List.mergeSort_perm targets byInstanceId).map _).nodup_iff.mpr h)
  refine hsorted.imp₂ (fun a b hle hne => ?_) hdistinct
  exact lt_of_le_of_ne (of_decide_eq_true hle) fun heq => hne (codeUnits_injective heq)

/-- The result for entries that can be read. -/
theorem computeSweepTargets_of_readable (hread : ∀ entry ∈ entries, Readable entry) :
    ∃ targets, computeSweepTargets (some entries) unreadFor = .ok targets ∧
      (targets.Pairwise fun a b => codeUnits a.instanceId < codeUnits b.instanceId) ∧
      ∀ target, target ∈ targets ↔ IsFirst entries unreadFor target := by
  have hempty : Selected unreadFor [] .empty := selected_empty
  obtain ⟨s, hs, hselected⟩ := selectFrom_spec hempty hread
  refine ⟨s.out.mergeSort byInstanceId, ?_, pairwise_mergeSort hselected.distinct, fun target => ?_⟩
  · rw [List.length_nil] at hs
    rw [computeSweepTargets, hs]
    rfl
  · rw [List.mem_mergeSort, hselected.out, List.nil_append]

theorem perm_readable (hperm : entries'.Perm entries) (h : ∀ entry ∈ entries, Readable entry) :
    ∀ entry ∈ entries', Readable entry :=
  fun entry hmem => h entry (hperm.mem_iff.mp hmem)

/-- With distinct ids and a counter that looks at the id only, the place of an entry is nothing. -/
theorem isFirst_iff_of_distinct (hdistinct : DistinctIds entries) {count : String → Count} :
    IsFirst entries (fun _ => count) target ↔
      ∃ entry ∈ entries, readEntry entry = .ok (some (target.instanceId, target.spiffeUri)) ∧
        (count target.instanceId).unread = some target.unread := by
  constructor
  · rintro ⟨place, hawaits, -⟩
    obtain ⟨entry, hentry, hread, hcount⟩ := awaits_iff.mp hawaits
    exact ⟨entry, List.mem_of_getElem? hentry, hread, hcount⟩
  · rintro ⟨entry, hmem, hread, hcount⟩
    obtain ⟨place, hentry⟩ := List.mem_iff_getElem?.mp hmem
    refine ⟨place, awaits_iff.mpr ⟨entry, hentry, hread, hcount⟩, fun earlier hearlier other hother heq => ?_⟩
    obtain ⟨entry', hentry', hfields⟩ := hother.fields
    obtain ⟨hlt, rfl⟩ := List.getElem?_eq_some_iff.mp hentry'
    obtain ⟨hlt', rfl⟩ := List.getElem?_eq_some_iff.mp hentry
    have hid := (readEntry_eq_some_iff.mp hread).1.instanceId
    refine List.pairwise_iff_getElem.mp hdistinct earlier place hlt hlt' hearlier _
      hfields.instanceId ?_
    rw [hid, heq]

theorem DistinctIds.perm (hperm : entries'.Perm entries) (h : DistinctIds entries) :
    DistinctIds entries' :=
  hperm.symm.pairwise h fun hab id hid hid' => hab id hid' hid

/-- The function keeps its promises exactly if reading the fields of the entries does not throw. -/
theorem sweep_selection_iff (entries : List JsValue) (unreadFor : Nat → String → Count) :
    Selects entries unreadFor ↔ ∀ entry ∈ entries, Readable entry := by
  constructor
  · rintro ⟨⟨targets, htargets, -⟩, -⟩
    obtain ⟨s, hs, -⟩ := Foundation.Except.map_eq_ok_iff.mp htargets
    exact readable_of_selectFrom hs
  · intro hread
    obtain ⟨targets, htargets, hsorted, hmem⟩ := computeSweepTargets_of_readable hread
    refine ⟨⟨targets, htargets, hsorted, fun id => ?_, fun target => (hmem target).mp⟩, ?_⟩
    · rw [← exists_isFirst_iff]
      exact exists_congr fun target => and_congr_left fun _ => hmem target
    · rintro entries' hperm hdistinct count rfl
      obtain ⟨targets', htargets', hsorted', hmem'⟩ := computeSweepTargets_of_readable
        (perm_readable hperm hread)
      rw [htargets, htargets']
      refine congrArg Except.ok (hsorted'.eq_of_mem_iff hsorted fun target => ?_)
      rw [hmem, hmem', isFirst_iff_of_distinct hdistinct,
        isFirst_iff_of_distinct (hdistinct.perm hperm)]
      exact exists_congr fun entry => and_congr_left fun _ => hperm.mem_iff

/-- An object with an accessor for its id that throws. -/
def throwingEntry : JsValue :=
  .object false (.ok false) (fun _ => .ok true)
    (fun key _ => if key = "instanceId" then .error .undefined else .ok (.string "spiffe://node"))
    (.ok false) (.ok "[object Object]")

/-- The exception of the accessor reaches the caller. -/
theorem accessor_exception_escapes :
    computeSweepTargets (some [throwingEntry]) (fun _ _ => .number (.finite 1)) = .error .undefined ∧
      ¬ Selects [throwingEntry] fun _ _ => .number (.finite 1) := by
  have hthrows : computeSweepTargets (some [throwingEntry]) (fun _ _ => .number (.finite 1)) =
      .error .undefined := rfl
  refine ⟨hthrows, fun hselects => ?_⟩
  obtain ⟨targets, htargets, -⟩ := hselects.returns
  rw [hthrows] at htargets
  cases htargets

end ThinkLocal.Wake
