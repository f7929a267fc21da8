import ThinkLocal.Foundation.InsertionMap
import ThinkLocal.Js.JsonRoundTrip

/-!
# Files of entries

A map that is kept in a file as the array of its entries; each entry carries its key in a field.  The
loader reads the entries one after another and stops where the access to the field throws, which is at
the first `null`; what it has read by then stays.
-/

namespace ThinkLocal.Js.EntryFile

open Foundation

/-- A key of the map; an object is only equal to itself, and is named by its place in the file. -/
inductive EntryKey
  | undefined
  | null
  | boolean (value : Bool)
  | number (value : Number)
  | text (text : String)
  | object (place : Nat)
  deriving DecidableEq

/-- `entry[field]` of the entry at a place; `none` where it throws. -/
def entryKey (field : String) (place : Nat) : Json → Option EntryKey
  | .null => none
  | .object fields =>
      some <|
        match Json.fieldOf fields field with
        | none => .undefined
        | some .null => .null
        | some (.boolean value) => .boolean value
        | some (.number value) => .number value
        | some (.string text) => .text text
        | some (.array _) | some (.object _) => .object place
  | _ => some .undefined

abbrev EntryMap := InsertionMap EntryKey Json

/-- What `for … of` runs through; `none` where it throws. -/
def iterate : Json → Option (List Json)
  | .array items => some items
  | .string text => some (text.toList.map fun c => .string (String.singleton c))
  | _ => none

/-- The loop of the loader from a place on, up to the first entry that throws. -/
def loadFrom (field : String) : Nat → List Json → EntryMap → EntryMap
  | _, [], entries => entries
  | place, entry :: rest, entries =>
      match entryKey field place entry with
      | none => entries
      | some key => loadFrom field (place + 1) rest (entries.set key entry)

/-- The map that is loaded from a text. -/
def load (field : String) (content : Option String) : EntryMap :=
  match (content.bind Json.parse).bind iterate with
  | none => .empty
  | some items => loadFrom field 0 items .empty

/-- The text for a map. -/
def saved (entries : EntryMap) : String := Json.stringify 2 (.array entries.values)

/-! ## The texts among the keys -/

/-- The text in the field of an entry. -/
def textOf (field : String) : Json → Option String
  | .object fields =>
      match Json.fieldOf fields field with
      | some (.string text) => some text
      | _ => none
  | _ => none

def isNull : Json → Bool
  | .null => true
  | _ => false

/-- The entries in a file. -/
def itemsOf (content : Option String) : List Json :=
  match content.bind Json.parse with
  | some (.array items) => items
  | _ => []

/-- The complete objects in a text, one after another; what stands between them is skipped. -/
def completeObjects : Nat → List Char → List Json
  | 0, _ | _, [] => []
  | fuel + 1, c :: rest =>
      match Json.parseValue (rest.length + 2) (c :: rest) with
      | some (.object fields, after) => .object fields :: completeObjects fuel after
      | _ => completeObjects fuel rest

/-- The entries that can be read in a file: those of an array, and otherwise what is complete. -/
def readableItems (content : Option String) : List Json :=
  match content.bind Json.parse with
  | some (.array items) => items
  | _ =>
      let text := (content.getD "").toList
      completeObjects text.length text

/-- The keys that can be read in a file. -/
def readableTexts (field : String) (content : Option String) : List String :=
  (readableItems content).filterMap (textOf field)

/-- A torn file. -/
example : readableTexts "key" (some "[\x7b\"key\":\"a\"\x7d,\x7b\"key\":\"b\"\x7d,\x7b\"ke") =
    ["a", "b"] := by decide +kernel

/-- The keys that the loader gets from a file. -/
def loadedTexts (field : String) (content : Option String) : List String :=
  ((itemsOf content).takeWhile fun entry => ! isNull entry).filterMap (textOf field)

variable {field : String} {place : Nat} {entry : Json} {entries : EntryMap} {key : String}
  {content : Option String}

theorem entryKey_eq_none : entryKey field place entry = none ↔ isNull entry = true := by
  cases entry <;> simp [entryKey, isNull]

theorem entryKey_eq_text :
    entryKey field place entry = some (.text key) ↔ textOf field entry = some key := by
  cases entry with
  | object fields =>
      rw [entryKey, textOf]
      cases Json.fieldOf fields field with
      | none => simp
      | some value => cases value <;> simp
  | _ => simp [entryKey, textOf]

theorem mem_keys_loadFrom (items : List Json) (place : Nat) (entries : EntryMap) :
    .text key ∈ (loadFrom field place items entries).keys ↔
      key ∈ (items.takeWhile fun entry => ! isNull entry).filterMap (textOf field) ∨
        .text key ∈ entries.keys := by
  induction items generalizing place entries with
  | nil => simp [loadFrom]
  | cons entry items ih =>
      rw [loadFrom]
      cases hkey : entryKey field place entry with
      | none =>
          rw [List.takeWhile_cons_of_neg (by simp [entryKey_eq_none.mp hkey])]
          simp
      | some found =>
          have hnull : isNull entry = false := by
            rw [← Bool.not_eq_true, ← entryKey_eq_none, hkey]
            exact Option.some_ne_none found
          have htext : .text key = found ↔ textOf field entry = some key := by
            rw [← entryKey_eq_text, hkey, Option.some_inj, eq_comm]
          rw [List.takeWhile_cons_of_pos (by simp [hnull])]
          dsimp only
          rw [ih, InsertionMap.mem_keys_set, htext, List.mem_filterMap, List.mem_filterMap,
            List.exists_mem_cons_iff]
          exact or_left_comm.trans or_assoc.symm

/-- The loader gets the keys before the first `null`. -/
theorem mem_keys_load : .text key ∈ (load field content).keys ↔ key ∈ loadedTexts field content := by
  have hempty : .text key ∉ (InsertionMap.empty : EntryMap).keys := nofun
  have hload : ∀ items : List Json, .text key ∈ (loadFrom field 0 items .empty).keys ↔
      key ∈ (items.takeWhile fun entry => ! isNull entry).filterMap (textOf field) ∨
        .text key ∈ (InsertionMap.empty : EntryMap).keys := fun items =>
    mem_keys_loadFrom items 0 .empty
  unfold load loadedTexts itemsOf
  cases content.bind Json.parse with
  | none => exact iff_of_false hempty nofun
  | some value =>
      cases value with
      | array items => exact (hload items).trans (or_iff_left hempty)
      | string text =>
          refine ((hload _).trans (or_iff_left hempty)).trans (iff_of_false (fun hmem => ?_) nofun)
          -- a character has no field
          obtain ⟨entry, hentry, htext⟩ := List.mem_filterMap.mp hmem
          obtain ⟨c, -, rfl⟩ := List.mem_map.mp (List.takeWhile_subset _ hentry)
          cases htext
      | null | boolean | number | object => exact iff_of_false hempty nofun

/-- An array in which nothing with a key stands behind a `null`. -/
def Whole (field : String) (content : Option String) : Prop :=
  ∃ items, content.bind Json.parse = some (.array items) ∧
    ∀ entry ∈ items.dropWhile fun entry => ! isNull entry, textOf field entry = none

theorem readableItems_of_array {items : List Json}
    (h : content.bind Json.parse = some (.array items)) : readableItems content = items := by
  rw [readableItems, h]

/-- The loader gets what can be read in a whole file. -/
theorem readableTexts_subset_of_whole (h : Whole field content) :
    readableTexts field content ⊆ loadedTexts field content := by
  obtain ⟨items, hitems, hbehind⟩ := h
  intro key hmem
  rw [readableTexts, readableItems_of_array hitems] at hmem
  obtain ⟨entry, hentry, htext⟩ := List.mem_filterMap.mp hmem
  rw [loadedTexts, itemsOf, hitems, List.mem_filterMap]
  refine ⟨entry, ?_, htext⟩
  rw [← List.takeWhile_append_dropWhile (p := fun entry => ! isNull entry) (l := items)] at hentry
  rcases List.mem_append.mp hentry with hbefore | hlater
  · exact hbefore
  · rw [hbehind entry hlater] at htext
    cases htext

/-! ## Saved files -/

/-- The map holds entries under their keys, each without a repeated field. -/
def Keyed (field : String) (entries : EntryMap) : Prop :=
  ∀ key entry, entries.get key = some entry →
    entry.KeyedOnce ∧ ∃ place, entryKey field place entry = some key

theorem keyed_empty : Keyed field .empty := fun _ _ h => nomatch h

theorem Keyed.set (h : Keyed field entries) {found : EntryKey} (hkeyed : entry.KeyedOnce)
    (hkey : entryKey field place entry = some found) : Keyed field (entries.set found entry) := by
  intro key' entry' hget
  rw [InsertionMap.get_set] at hget
  split at hget
  · next heq =>
      obtain rfl := Option.some.inj hget
      rw [heq]
      exact ⟨hkeyed, place, hkey⟩
  · exact h key' entry' hget

theorem Keyed.delete (h : Keyed field entries) (found : EntryKey) :
    Keyed field (entries.delete found) :=
  fun key' entry' hget => h key' entry' (InsertionMap.get_of_get_delete hget).2

theorem Keyed.loadFrom (items : List Json) (hitems : ∀ entry ∈ items, entry.KeyedOnce) (place : Nat)
    (h : Keyed field entries) : Keyed field (loadFrom field place items entries) := by
  induction items generalizing place entries with
  | nil => exact h
  | cons entry items ih =>
      rw [EntryFile.loadFrom]
      cases hkey : entryKey field place entry with
      | none => exact h
      | some found =>
          exact ih (fun e he => hitems e (List.mem_cons_of_mem _ he)) (place + 1)
            (h.set (hitems entry List.mem_cons_self) hkey)

theorem keyed_load (field : String) (content : Option String) : Keyed field (load field content) := by
  unfold load
  split
  · exact keyed_empty
  · next items hitems =>
      obtain ⟨value, hparse, hiterate⟩ := Option.bind_eq_some_iff.mp hitems
      refine Keyed.loadFrom items ?_ 0 keyed_empty
      cases value with
      | array items =>
          obtain rfl := Option.some.inj hiterate
          obtain ⟨text, -, hparse⟩ := Option.bind_eq_some_iff.mp hparse
          exact Json.keyedOnce_of_parse hparse
      | string text =>
          obtain rfl := Option.some.inj hiterate
          intro entry hentry
          obtain ⟨c, -, rfl⟩ := List.mem_map.mp hentry
          trivial
      | null | boolean | number | object => cases hiterate

theorem textOf_reread (h : entry.KeyedOnce) : textOf field entry.reread = textOf field entry := by
  cases entry with
  | object fields =>
      rw [Json.reread, textOf, textOf, Json.fieldOf_reread h]
      cases Json.fieldOf fields field with
      | none => rfl
      | some value =>
          cases value with
          | number x => cases x <;> rfl
          | _ => rfl
  | number x => cases x <;> rfl
  | _ => rfl

theorem parse_saved (entries : EntryMap) : (some (saved entries)).bind Json.parse =
    some (.array (entries.values.map Json.reread)) := by
  rw [Option.bind_some, saved, Json.parse_stringify, Json.reread, Json.rereadItems_eq_map]

/-- No entry is written as `null`; a number beyond the range is. -/
def Writable (entries : EntryMap) : Prop := ∀ entry ∈ entries.values, isNull entry.reread = false

/-- The keys in a file that was saved. -/
theorem mem_readableTexts_saved (h : Keyed field entries) :
    key ∈ readableTexts field (some (saved entries)) ↔ .text key ∈ entries.keys := by
  have htext : ∀ {found : EntryKey} {value : Json}, entries.get found = some value →
      (textOf field value.reread = some key ↔ found = .text key) := by
    intro found value hfound
    obtain ⟨hkeyed, place, hkey⟩ := h found value hfound
    rw [textOf_reread hkeyed, ← entryKey_eq_text, hkey, Option.some_inj]
  have hmem : .text key ∈ entries.keys ↔ ∃ value, entries.get (.text key) = some value := by
    rw [← Option.isSome_iff_exists, ← Option.ne_none_iff_isSome, ne_eq,
      InsertionMap.get_eq_none_iff, not_not]
  rw [readableTexts, readableItems_of_array (parse_saved entries), List.filterMap_map,
    List.mem_filterMap, hmem]
  constructor
  · rintro ⟨value, hvalue, hsome⟩
    obtain ⟨found, hfound⟩ := InsertionMap.mem_values_iff.mp hvalue
    obtain rfl := (htext hfound).mp hsome
    exact ⟨value, hfound⟩
  · rintro ⟨value, hfound⟩
    exact ⟨value, InsertionMap.mem_values_iff.mpr ⟨_, hfound⟩, (htext hfound).mpr rfl⟩

/-- The loader gets every key from a file that was saved. -/
theorem loadedTexts_saved (h : Writable entries) :
    loadedTexts field (some (saved entries)) = readableTexts field (some (saved entries)) := by
  have hitems : itemsOf (some (saved entries)) = entries.values.map Json.reread := by
    rw [itemsOf, parse_saved]
  have hall : (entries.values.map Json.reread).takeWhile (fun entry => ! isNull entry) =
      entries.values.map Json.reread := by
    rw [List.takeWhile_eq_self_iff]
    intro entry hentry
    obtain ⟨value, hvalue, rfl⟩ := List.mem_map.mp hentry
    rw [h value hvalue]
    rfl
  rw [loadedTexts, readableTexts, readableItems_of_array (parse_saved entries), hitems, hall]

end ThinkLocal.Js.EntryFile
