import Mathlib.Tactic

/-!
# JSON-like values and what JavaScript does with them

The values that an Automerge document can hold under any key, and the JavaScript
operations that the registry applies to such values without knowing their type:
property access, the `in` operator, `Object.values`, conversion to a string,
conversion to a date and assignment to a property.  Each may throw; a result
`none` of type `Option` stands for the exception.  A value that was read may be
`undefined`, the `none` of an `Option Json`.

A document that holds an exotic value throws in some of these operations and not
in others, so each is given by what it does on every kind of value.
-/

namespace ThinkLocal.Registry

/-- A JSON-like value.  A number is given by its text `String(n)`. -/
inductive Json
  | null
  | bool (value : Bool)
  | number (text : String)
  | string (text : String)
  | array (items : List Json)
  | object (fields : List (String × Json))

/-! ## Fields of an object -/

abbrev Fields := List (String × Json)

/-- The value of an own property. -/
def lookup : Fields → String → Option Json
  | [], _ => none
  | (k, v) :: rest, key => if k = key then some v else lookup rest key

/-- Assignment to an own property. -/
def insertField : Fields → String → Json → Fields
  | [], key, value => [(key, value)]
  | (k, v) :: rest, key, value =>
      if k = key then (key, value) :: rest else (k, v) :: insertField rest key value

/-- Deletion of an own property. -/
def eraseField : Fields → String → Fields
  | [], _ => []
  | (k, v) :: rest, key => if k = key then eraseField rest key else (k, v) :: eraseField rest key

theorem mem_of_lookup {fields : Fields} {key : String} {value : Json}
    (h : lookup fields key = some value) : (key, value) ∈ fields := by
  induction fields with
  | nil => cases h
  | cons p rest ih =>
      obtain ⟨k, v⟩ := p
      unfold lookup at h
      split at h
      · obtain rfl := Option.some.inj h
        rw [‹k = key›]
        exact List.mem_cons_self
      · exact List.mem_cons_of_mem _ (ih h)

/-- The fields after an assignment are the new one and old ones. -/
theorem mem_insertField {fields : Fields} {key : String} {value : Json} {p : String × Json}
    (h : p ∈ insertField fields key value) : p = (key, value) ∨ p ∈ fields := by
  induction fields with
  | nil => exact .inl (List.mem_singleton.mp h)
  | cons q rest ih =>
      obtain ⟨k, v⟩ := q
      unfold insertField at h
      split at h
      · exact (List.mem_cons.mp h).imp_right (List.mem_cons_of_mem _)
      · rcases List.mem_cons.mp h with rfl | hrest
        · exact .inr List.mem_cons_self
        · exact (ih hrest).imp_right (List.mem_cons_of_mem _)

theorem mem_eraseField {fields : Fields} {key : String} {p : String × Json}
    (h : p ∈ eraseField fields key) : p ∈ fields := by
  induction fields with
  | nil => cases h
  | cons q rest ih =>
      obtain ⟨k, v⟩ := q
      unfold eraseField at h
      split at h
      · exact List.mem_cons_of_mem _ (ih h)
      · rcases List.mem_cons.mp h with rfl | hrest
        · exact List.mem_cons_self
        · exact List.mem_cons_of_mem _ (ih hrest)

theorem lookup_insertField (fields : Fields) (key key' : String) (value : Json) :
    lookup (insertField fields key value) key' =
      if key' = key then some value else lookup fields key' := by
  induction fields with
  | nil => simp [insertField, lookup, eq_comm]
  | cons p rest ih =>
      obtain ⟨k, v⟩ := p
      unfold insertField
      by_cases hk : k = key
      · rw [if_pos hk]
        by_cases hkey : key' = key
        · simp [lookup, hkey]
        · simp [lookup, hk, hkey, Ne.symm hkey]
      · rw [if_neg hk]
        unfold lookup
        rw [ih]
        by_cases hfound : k = key'
        · have hne : key' ≠ key := fun h => hk (hfound.trans h)
          simp [hfound, hne]
        · simp [hfound]

theorem lookup_eraseField (fields : Fields) (key key' : String) :
    lookup (eraseField fields key) key' = if key' = key then none else lookup fields key' := by
  induction fields with
  | nil => simp [eraseField, lookup]
  | cons p rest ih =>
      obtain ⟨k, v⟩ := p
      unfold eraseField
      by_cases hk : k = key
      · rw [if_pos hk, ih]
        by_cases hkey : key' = key
        · simp [hkey]
        · have hne : k ≠ key' := fun h => hkey (h.symm.trans hk)
          simp [lookup, hkey, hne]
      · rw [if_neg hk]
        unfold lookup
        rw [ih]
        by_cases hfound : k = key'
        · have hne : key' ≠ key := fun h => hk (hfound.trans h)
          simp [hfound, hne]
        · simp [hfound]

namespace Json

/-! ## Reading -/

/-- `value.field`, for a field that only objects have; throws on `null`. -/
def property : Json → String → Option (Option Json)
  | .null, _ => none
  | .object fields, field => some (lookup fields field)
  | _, _ => some none

/-- `value?.field`. -/
def propertyOrUndefined : Option Json → String → Option Json
  | some (.object fields), field => lookup fields field
  | _, _ => none

/-- `value === text`. -/
def isString : Option Json → String → Bool
  | some (.string s), text => s = text
  | _, _ => false

/-- The truth value of a value that was read. -/
def truthy : Option Json → Bool
  | none => false
  | some .null => false
  | some (.bool value) => value
  | some (.number text) => text ≠ "0" ∧ text ≠ "NaN"
  | some (.string text) => text ≠ ""
  | some _ => true

/-- `Object.entries(value)`; throws on `undefined` and `null`. -/
def objectEntries : Option Json → Option Fields
  | some (.object fields) => some fields
  | some (.array items) => some (items.zipIdx.map fun p => (toString p.2, p.1))
  | some (.string text) =>
      some (text.toList.zipIdx.map fun p => (toString p.2, .string (String.singleton p.1)))
  | some (.bool _) => some []
  | some (.number _) => some []
  | some .null => none
  | none => none

/-- `Object.values(value)`. -/
def objectValues (value : Option Json) : Option (List Json) :=
  (objectEntries value).map fun entries => entries.map Prod.snd

/-- `Object.keys(value)`. -/
def objectKeys (value : Option Json) : Option (List String) :=
  (objectEntries value).map fun entries => entries.map Prod.fst

/-- `value[key]` for a container `value` other than `undefined` and `null`. -/
def element : Json → String → Option Json
  | .object fields, key => lookup fields key
  | .array items, key => key.toNat?.bind fun i => items[i]?
  | .string text, key =>
      key.toNat?.bind fun i => text.toList[i]?.map fun c => .string (String.singleton c)
  | _, _ => none

/-! ## Conversions -/

mutual

/-- `String(value)`.  An object with an own `toString` has no primitive value:
the property is data, so neither it nor `valueOf` returns a primitive. -/
def toText : Json → Option String
  | .null => some "null"
  | .bool value => some (if value then "true" else "false")
  | .number text => some text
  | .string text => some text
  | .array items => joinTexts items
  | .object fields => if (lookup fields "toString").isSome then none else some "[object Object]"

/-- `items.join(",")`; `null` elements are empty. -/
def joinTexts : List Json → Option String
  | [] => some ""
  | [.null] => some ""
  | [item] => toText item
  | .null :: rest => (joinTexts rest).map fun text => "," ++ text
  | item :: rest =>
      (toText item).bind fun first => (joinTexts rest).map fun text => first ++ "," ++ text

end

/-- The text of a value in a template literal. -/
def template : Option Json → Option String
  | none => some "undefined"
  | some value => toText value

end Json

/-- What the registry uses of the `Date` constructor and of Automerge's proxies. -/
structure Dates where
  /-- `new Date(text).getTime()`, absent for an invalid date. -/
  ofText : String → Option Int
  /-- `new Date(n).getTime()` for the number with the given text. -/
  ofNumber : String → Option Int
  /-- `new Date(v).getTime()` for an array or object read inside a change, which
  is a proxy there; the outer `none` is an exception. -/
  ofProxy : Json → Option (Option Int)

/-- `new Date(v).getTime()` for a value read inside a change; the outer `none` is
an exception, the inner one an invalid date. -/
def Dates.ofValue (dates : Dates) : Option Json → Option (Option Int)
  | none => some none
  | some .null => some (some 0)
  | some (.bool value) => some (some (if value then 1 else 0))
  | some (.number text) => some (dates.ofNumber text)
  | some (.string text) => some (dates.ofText text)
  | some value => dates.ofProxy value

/-- `a > b` of two dates. -/
def laterThan : Option Int → Option Int → Bool
  | some a, some b => b < a
  | _, _ => false

end ThinkLocal.Registry
