import ThinkLocal.Js.Json

/-!
# Redaction by a list of safe keys

What survives of a JSON value: the values under safe keys, and the shape around them.  A scalar
that is not under a safe key is replaced, also as an item of an array, and so is the whole value
of a key that is not safe.  Values that differ only in what is replaced have one redaction, and
a redaction is its own.
-/

namespace ThinkLocal.Mcp

open Js

def REDACTED : String := "[REDACTED]"

variable (safe : List String)

mutual

/-- What remains of a value; the flag says that it is under a safe key. -/
def redacted (underSafeKey : Bool) : Json → Json
  | .array items => .array (redactedItems underSafeKey items)
  | .object fields => .object (redactedFields fields)
  | scalar => if underSafeKey then scalar else .string REDACTED

def redactedItems (underSafeKey : Bool) : List Json → List Json
  | [] => []
  | item :: items => redacted underSafeKey item :: redactedItems underSafeKey items

/-- Writing the key `__proto__` makes no field. -/
def redactedFields : List (String × Json) → List (String × Json)
  | [] => []
  | (key, value) :: fields =>
      if key = "__proto__" then redactedFields fields
      else
        (key, if key ∈ safe then redacted true value else .string REDACTED) ::
          redactedFields fields

end

mutual

/-- How deep the walk through a value goes; it stops at keys that are not safe. -/
def walkedDepth : Json → Nat
  | .array items => itemsDepth items
  | .object fields => fieldsDepth fields
  | _ => 0

def itemsDepth : List Json → Nat
  | [] => 0
  | item :: items => max (walkedDepth item + 1) (itemsDepth items)

def fieldsDepth : List (String × Json) → Nat
  | [] => 0
  | (key, value) :: fields =>
      if key ∈ safe then max (walkedDepth value + 1) (fieldsDepth fields) else fieldsDepth fields

end

mutual

/-- How many items and fields the walk meets. -/
def walkedNodes : Json → Nat
  | .array items => itemsNodes items
  | .object fields => fieldsNodes fields
  | _ => 0

def itemsNodes : List Json → Nat
  | [] => 0
  | item :: items => 1 + walkedNodes item + itemsNodes items

def fieldsNodes : List (String × Json) → Nat
  | [] => 0
  | (key, value) :: fields =>
      1 + (if key ∈ safe then walkedNodes value else 0) + fieldsNodes fields

end

mutual

/-- Two values that differ only in scalars that are not under a safe key, and in the values of
keys that are not safe. -/
def Alike (underSafeKey : Bool) : Json → Json → Prop
  | .array items, .array items' => AlikeItems underSafeKey items items'
  | .object fields, .object fields' => AlikeFields fields fields'
  | .array _, _ | .object _, _ | _, .array _ | _, .object _ => False
  | scalar, scalar' => underSafeKey = true → scalar = scalar'

def AlikeItems (underSafeKey : Bool) : List Json → List Json → Prop
  | [], [] => True
  | item :: items, item' :: items' =>
      Alike underSafeKey item item' ∧ AlikeItems underSafeKey items items'
  | _, _ => False

def AlikeFields : List (String × Json) → List (String × Json) → Prop
  | [], [] => True
  | (key, value) :: fields, (key', value') :: fields' =>
      key = key' ∧ (key ∈ safe → Alike true value value') ∧ AlikeFields fields fields'
  | _, _ => False

end

variable {safe}

/-! ## Scalars -/

def IsScalar : Json → Prop
  | .array _ | .object _ => False
  | _ => True

theorem redacted_of_isScalar {underSafeKey : Bool} {value : Json} (h : IsScalar value) :
    redacted safe underSafeKey value = if underSafeKey then value else .string REDACTED := by
  cases value with
  | array | object => exact h.elim
  | null | boolean | number | string => rfl

theorem Alike.scalar {underSafeKey : Bool} {value value' : Json}
    (h : Alike safe underSafeKey value value') (hvalue : IsScalar value) :
    IsScalar value' ∧ (underSafeKey = true → value = value') := by
  cases value with
  | array | object => exact hvalue.elim
  | null | boolean | number | string =>
      cases value' with
      | array | object => exact absurd h (by rw [Alike] <;> simp)
      | null | boolean | number | string => exact ⟨trivial, by rwa [Alike] at h <;> simp⟩

theorem Alike.array {underSafeKey : Bool} {items : List Json} {value' : Json}
    (h : Alike safe underSafeKey (.array items) value') :
    ∃ items', value' = .array items' ∧ AlikeItems safe underSafeKey items items' := by
  cases value' with
  | array items' => exact ⟨items', rfl, by rwa [Alike] at h⟩
  | null | boolean | number | string | object => exact absurd h (by rw [Alike] <;> simp)

theorem Alike.object {underSafeKey : Bool} {fields : List (String × Json)} {value' : Json}
    (h : Alike safe underSafeKey (.object fields) value') :
    ∃ fields', value' = .object fields' ∧ AlikeFields safe fields fields' := by
  cases value' with
  | object fields' => exact ⟨fields', rfl, by rwa [Alike] at h⟩
  | null | boolean | number | string | array => exact absurd h (by rw [Alike] <;> simp)

/-! ## Noninterference -/

theorem redacted_eq_of_scalar {underSafeKey : Bool} {value value' : Json}
    (h : Alike safe underSafeKey value value') (hvalue : IsScalar value) :
    redacted safe underSafeKey value = redacted safe underSafeKey value' := by
  obtain ⟨hvalue', hsame⟩ := h.scalar hvalue
  rw [redacted_of_isScalar hvalue, redacted_of_isScalar hvalue']
  cases underSafeKey with
  | false => rfl
  | true => rw [hsame rfl]

mutual

theorem redacted_eq_of_alike {underSafeKey : Bool} : ∀ {value value' : Json},
    Alike safe underSafeKey value value' →
      redacted safe underSafeKey value = redacted safe underSafeKey value'
  | .array items, _, h => by
      obtain ⟨items', rfl, hitems⟩ := h.array
      rw [redacted, redacted, redactedItems_eq_of_alike hitems]
  | .object fields, _, h => by
      obtain ⟨fields', rfl, hfields⟩ := h.object
      rw [redacted, redacted, redactedFields_eq_of_alike hfields]
  | .null, _, h | .boolean _, _, h | .number _, _, h | .string _, _, h =>
      redacted_eq_of_scalar h trivial

theorem redactedItems_eq_of_alike {underSafeKey : Bool} : ∀ {items items' : List Json},
    AlikeItems safe underSafeKey items items' →
      redactedItems safe underSafeKey items = redactedItems safe underSafeKey items'
  | [], [], _ => rfl
  | item :: items, item' :: items', h => by
      rw [AlikeItems] at h
      rw [redactedItems, redactedItems, redacted_eq_of_alike h.1, redactedItems_eq_of_alike h.2]

theorem redactedFields_eq_of_alike : ∀ {fields fields' : List (String × Json)},
    AlikeFields safe fields fields' → redactedFields safe fields = redactedFields safe fields'
  | [], [], _ => rfl
  | (key, value) :: fields, (key', value') :: fields', h => by
      rw [AlikeFields] at h
      obtain ⟨rfl, hvalue, hfields⟩ := h
      have hrest := redactedFields_eq_of_alike hfields
      rw [redactedFields, redactedFields, hrest]
      by_cases hkey : key ∈ safe
      · rw [redacted_eq_of_alike (hvalue hkey)]
      · simp only [if_neg hkey]

end

/-! ## A redaction is redacted -/

mutual

theorem redacted_redacted (underSafeKey : Bool) : ∀ value : Json,
    redacted safe underSafeKey (redacted safe underSafeKey value) =
      redacted safe underSafeKey value
  | .array items => by
      rw [redacted, redacted, redactedItems_redactedItems underSafeKey items]
  | .object fields => by
      rw [redacted, redacted, redactedFields_redactedFields fields]
  | .null | .boolean _ | .number _ | .string _ => by cases underSafeKey <;> rfl

theorem redactedItems_redactedItems (underSafeKey : Bool) : ∀ items : List Json,
    redactedItems safe underSafeKey (redactedItems safe underSafeKey items) =
      redactedItems safe underSafeKey items
  | [] => rfl
  | item :: items => by
      rw [redactedItems, redactedItems, redacted_redacted underSafeKey item,
        redactedItems_redactedItems underSafeKey items]

theorem redactedFields_redactedFields : ∀ fields : List (String × Json),
    redactedFields safe (redactedFields safe fields) = redactedFields safe fields
  | [] => rfl
  | (key, value) :: fields => by
      have hrest := redactedFields_redactedFields fields
      rw [redactedFields]
      split
      case isTrue => exact hrest
      case isFalse hkey =>
        rw [redactedFields, if_neg hkey, hrest]
        by_cases hsafe : key ∈ safe
        · simp only [if_pos hsafe, redacted_redacted true value]
        · simp only [if_neg hsafe]

end

mutual

/-- A redaction is not deeper and not larger than the value. -/
theorem walked_redacted (underSafeKey : Bool) : ∀ value : Json,
    walkedDepth safe (redacted safe underSafeKey value) ≤ walkedDepth safe value ∧
      walkedNodes safe (redacted safe underSafeKey value) ≤ walkedNodes safe value
  | .array items => by
      rw [redacted, walkedDepth, walkedDepth, walkedNodes, walkedNodes]
      exact walked_redactedItems underSafeKey items
  | .object fields => by
      rw [redacted, walkedDepth, walkedDepth, walkedNodes, walkedNodes]
      exact walked_redactedFields fields
  | .null | .boolean _ | .number _ | .string _ => by cases underSafeKey <;> exact ⟨le_rfl, le_rfl⟩

theorem walked_redactedItems (underSafeKey : Bool) : ∀ items : List Json,
    itemsDepth safe (redactedItems safe underSafeKey items) ≤ itemsDepth safe items ∧
      itemsNodes safe (redactedItems safe underSafeKey items) ≤ itemsNodes safe items
  | [] => ⟨le_rfl, le_rfl⟩
  | item :: items => by
      have hitem := walked_redacted underSafeKey item
      have hitems := walked_redactedItems underSafeKey items
      rw [redactedItems, itemsDepth, itemsDepth, itemsNodes, itemsNodes]
      omega

theorem walked_redactedFields : ∀ fields : List (String × Json),
    fieldsDepth safe (redactedFields safe fields) ≤ fieldsDepth safe fields ∧
      fieldsNodes safe (redactedFields safe fields) ≤ fieldsNodes safe fields
  | [] => ⟨le_rfl, le_rfl⟩
  | (key, value) :: fields => by
      have hvalue := walked_redacted true value
      have hfields := walked_redactedFields fields
      rw [redactedFields, fieldsDepth, fieldsNodes]
      split
      case isTrue => split_ifs <;> omega
      case isFalse =>
        rw [fieldsDepth, fieldsNodes]
        split_ifs <;> omega

end

end ThinkLocal.Mcp
