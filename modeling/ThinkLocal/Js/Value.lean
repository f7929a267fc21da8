import Mathlib.Tactic

/-!
# Values of unknown shape

What the program can do with a value that it got from code it does not trust.  An
object is given by what each operation on it does: a getter or the trap of a proxy
may throw any value and may answer a repeated read differently.  Exceptions are
values, too.

A call of untrusted asynchronous code is given by the event in which its promise
settles, if it settles at all.  Events are counted; a timer that fires in the same
event is ahead, as the promise is seen through two further reactions.
-/

namespace ThinkLocal.Js

inductive JsValue
  | undefined
  | null
  | boolean (value : Bool)
  | number (text : String)
  | string (text : String)
  | symbol (description : String)
  /-- An object or, if it is callable, a function: the results of `Array.isArray`,
  `Object.hasOwn`, the n-th read of a property, `instanceof Error` and the
  conversion to a text. -/
  | object (callable : Bool) (isArray : Except JsValue Bool)
      (hasOwn : String → Except JsValue Bool)
      (get : String → Nat → Except JsValue JsValue)
      (isError : Except JsValue Bool) (text : Except JsValue String)

namespace JsValue

/-- `typeof`. -/
def typeof : JsValue → String
  | undefined => "undefined"
  | null => "object"
  | boolean _ => "boolean"
  | number _ => "number"
  | string _ => "string"
  | symbol _ => "symbol"
  | object callable .. => if callable then "function" else "object"

/-- `!!value`. -/
def truthy : JsValue → Bool
  | undefined => false
  | null => false
  | boolean value => value
  | number text => text ≠ "0" ∧ text ≠ "NaN"
  | string text => text ≠ ""
  | symbol _ => true
  | object .. => true

/-- An exception that the engine throws, with its message. -/
def typeError (message : String) : JsValue :=
  object false (.ok false) (fun key => .ok (key = "message"))
    (fun key _ => .ok (if key = "message" then string message else undefined))
    (.ok true) (.ok ("TypeError: " ++ message))

/-- The n-th read of a property that primitive values do not have. -/
def get (value : JsValue) (key : String) (read : Nat) : Except JsValue JsValue :=
  match value with
  | undefined => .error (typeError "Cannot read properties of undefined")
  | null => .error (typeError "Cannot read properties of null")
  | object _ _ _ get _ _ => get key read
  | _ => .ok undefined

/-- `Object.hasOwn(value, key)` for an object. -/
def hasOwn (value : JsValue) (key : String) : Except JsValue Bool :=
  match value with
  | object _ _ hasOwn _ _ _ => hasOwn key
  | _ => .ok false

/-- `Array.isArray(value)`. -/
def isArray : JsValue → Except JsValue Bool
  | object _ isArray _ _ _ _ => isArray
  | _ => .ok false

/-- `value instanceof Error`. -/
def isError : JsValue → Except JsValue Bool
  | object _ _ _ _ isError _ => isError
  | _ => .ok false

/-- The text in a template literal; a symbol has none. -/
def template : JsValue → Except JsValue String
  | undefined => .ok "undefined"
  | null => .ok "null"
  | boolean value => .ok (if value then "true" else "false")
  | number text => .ok text
  | string text => .ok text
  | symbol _ => .error (typeError "Cannot convert a Symbol value to a string")
  | object _ _ _ _ _ text => text

/-- `String(value)`. -/
def toText : JsValue → Except JsValue String
  | symbol description => .ok ("Symbol(" ++ description ++ ")")
  | value => value.template

/-- `value === text`. -/
def isString (value : JsValue) (text : String) : Bool :=
  match value with
  | string s => s = text
  | _ => false

/-- `value === null`. -/
def isNull : JsValue → Bool
  | null => true
  | _ => false

/-- `value === true`. -/
def isTrue : JsValue → Bool
  | boolean value => value
  | _ => false

theorem isString_iff {value : JsValue} {text : String} :
    value.isString text = true ↔ value = string text := by
  cases value <;> simp [isString]

theorem isNull_iff {value : JsValue} : value.isNull = true ↔ value = null := by
  cases value <;> simp [isNull]

/-- An object without a prototype: it has no text. -/
def bare : JsValue :=
  object false (.ok false) (fun _ => .ok false) (fun _ _ => .ok undefined) (.ok false)
    (.error (typeError "Cannot convert object to primitive value"))

end JsValue

/-! ## Calls of asynchronous code -/

/-- How a promise settles; an exception of the call itself rejects. -/
inductive Settled
  | fulfilled (value : JsValue)
  | rejected (error : JsValue)

/-- A call that settles in the given event or never. -/
abbrev Call := Option (Nat × Settled)

/-- `TimedResult`. -/
inductive TimedResult
  | value (value : JsValue)
  | timeout
  | error (error : JsValue)

/-- `withTimeout`: the call against a timer that fires in the given event. -/
def withTimeout (call : Call) (fires : Nat) : TimedResult :=
  match call with
  | some (event, settled) =>
      if event < fires then
        match settled with
        | .fulfilled value => .value value
        | .rejected error => .error error
      else .timeout
  | none => .timeout

theorem withTimeout_eq_value {call : Call} {fires : Nat} {v : JsValue}
    (h : withTimeout call fires = .value v) :
    ∃ event, call = some (event, .fulfilled v) ∧ event < fires := by
  unfold withTimeout at h
  split at h
  · split at h
    · split at h
      · cases h
        exact ⟨_, rfl, ‹_›⟩
      · cases h
    · cases h
  · cases h

/-! ## Values of a parsed text

What a handler sees of a field of a JSON text that it only tests, compares or uses as
the key of a map.  Every parse makes new objects, and an object is equal to itself only,
so an object is given by its identity.
-/

/-- A value from a JSON text, or the `undefined` of a missing field. -/
inductive Plain
  | undefined
  | null
  | boolean (value : Bool)
  | number (text : String)
  | string (text : String)
  | object (identity : Nat)
deriving DecidableEq

/-- `!!value`. -/
def Plain.truthy : Plain → Bool
  | undefined => false
  | null => false
  | boolean value => value
  | number text => text ≠ "0"
  | string text => text ≠ ""
  | object _ => true

/-- The text of a string. -/
def Plain.text? : Plain → Option String
  | string text => some text
  | _ => none

end ThinkLocal.Js
