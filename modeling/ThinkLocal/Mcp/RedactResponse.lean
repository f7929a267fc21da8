import ThinkLocal.Foundation.Arena
import ThinkLocal.Mcp.Redaction
import ThinkLocal.Mcp.ServiceRegistry

/-!
# The redaction of a response

`redact-mcp-response.ts` on the memory that it works on: arrays and objects are cells, and a value
is a scalar or a reference to one.  The walk counts what it meets, gives up beyond its bounds,
and writes only to cells that it has allocated.
-/

namespace ThinkLocal.Mcp

open Foundation Js

/-! ## The memory -/

inductive Scalar
  | null
  | boolean (value : Bool)
  | number (value : Number)
  | string (text : String)
deriving DecidableEq

inductive Value
  | scalar (value : Scalar)
  | reference (address : Nat)
deriving DecidableEq

inductive Cell
  | array (items : List Value)
  /-- The own fields, in the order of `Object.entries`. -/
  | object (fields : List (String × Value))

abbrev Memory := Arena Cell

/-- `out.push(value)`. -/
def Cell.push (value : Value) : Cell → Cell
  | array items => array (items ++ [value])
  | object fields => object fields

/-- `out[key] = value` for a new key; the key `__proto__` makes no field. -/
def Cell.assign (key : String) (value : Value) : Cell → Cell
  | object fields => if key = "__proto__" then object fields else object (fields ++ [(key, value)])
  | array items => array items

/-! ## The walk -/

def MAX_DEPTH : Nat := 32

def MAX_NODES : Nat := 10000

/-- The memory and `bounds.nodes`. -/
structure WalkState where
  memory : Memory
  nodes : Nat

/-- `++bounds.nodes > MAX_NODES` leaves the loop. -/
def WalkState.count (s : WalkState) : WalkState := { s with nodes := s.nodes + 1 }

def WalkState.write (s : WalkState) (out : Nat) (change : Cell → Cell) : WalkState :=
  { s with memory := s.memory.modify out change }

def WalkState.alloc (s : WalkState) (cell : Cell) : WalkState :=
  { s with memory := s.memory.alloc cell }

/-- A loop that is left at the first step that fails. -/
def eachOf {β : Type} (step : β → WalkState → WalkState × Bool) :
    List β → WalkState → WalkState × Bool
  | [], s => (s, true)
  | b :: rest, s =>
      match step b s with
      | (s, true) => eachOf step rest s
      | (s, false) => (s, false)

/-- One item of an array, with the walk into it. -/
def redactItem (walk : Value → WalkState → WalkState × Option Value) (out : Nat) (item : Value)
    (s : WalkState) : WalkState × Bool :=
  let s := s.count
  if MAX_NODES < s.nodes then (s, false)
  else
    match walk item s with
    | (s, none) => (s, false)
    | (s, some value) => (s.write out (Cell.push value), true)

/-- One field of an object. -/
def redactField (safe : List String) (walk : Value → WalkState → WalkState × Option Value)
    (out : Nat) (field : String × Value) (s : WalkState) : WalkState × Bool :=
  let s := s.count
  if MAX_NODES < s.nodes then (s, false)
  else if field.1 ∈ safe then
    match walk field.2 s with
    | (s, none) => (s, false)
    | (s, some value) => (s.write out (Cell.assign field.1 value), true)
  else (s.write out (Cell.assign field.1 (.scalar (.string REDACTED))), true)

/-- `redactByAllowlist` with `MAX_DEPTH + 1 - depth` levels left; no value is `ok: false`. -/
def redactLevels (safe : List String) : Nat → Bool → Value → WalkState → WalkState × Option Value
  | 0, _, _, s => (s, none)
  | _ + 1, underSafeKey, .scalar value, s =>
      (s, some (.scalar (if underSafeKey then value else .string REDACTED)))
  | levels + 1, underSafeKey, .reference address, s =>
      match s.memory.get address with
      | none => (s, none)
      | some (.array items) =>
          let out := s.memory.next
          match eachOf (redactItem (redactLevels safe levels underSafeKey) out) items
              (s.alloc (.array [])) with
          | (s, true) => (s, some (.reference out))
          | (s, false) => (s, none)
      | some (.object fields) =>
          let out := s.memory.next
          match eachOf (redactField safe (redactLevels safe levels true) out) fields
              (s.alloc (.object [])) with
          | (s, true) => (s, some (.reference out))
          | (s, false) => (s, none)

/-- `redactByAllowlist` with its defaults. -/
def redactByAllowlist (safe : List String) (value : Value) (memory : Memory) :
    Memory × Option Value :=
  match redactLevels safe (MAX_DEPTH + 1) false value ⟨memory, 0⟩ with
  | (s, result) => (s.memory, result)

/-! ## Results of tools -/

inductive RedactionOutcome
  | passthrough
  | redacted
  | failClosed
deriving DecidableEq

structure RedactionResult where
  outcome : RedactionOutcome
  result : Value
  reason : Option String
deriving DecidableEq

/-- The safe fields of the servers that have some listed; the others have none. -/
def SERVER_SAFE_FIELDS (name : String) : List String := ([("unifi", [])].lookup name).getD []

section LowerCase

variable (toLowerCase : String → String)

def isSensitiveTool (server tool : String) : Bool :=
  tool ≠ "" ∧
    (SERVER_TOOL_CLASSES (canonicalizeServerName toLowerCase server)).isSensitive tool = true

/-- The fields of a notice with the outcome `fail-closed`. -/
def notice (server tool : String) : Cell :=
  .object [("thinklocalRedaction", .scalar (.string "fail-closed")),
    ("server", .scalar (.string server)), ("tool", .scalar (.string tool))]

/-- A notice takes the place of the result. -/
def failClosed (memory : Memory) (server tool reason : String) : Memory × RedactionResult :=
  (memory.alloc (notice server tool),
    { outcome := .failClosed, result := .reference memory.next, reason := some reason })

def redactSensitiveResult (server tool : String) (result : Value) (memory : Memory) :
    Memory × RedactionResult :=
  let canon := canonicalizeServerName toLowerCase server
  if isSensitiveTool toLowerCase canon tool then
    match result with
    | .scalar _ => failClosed memory canon tool "non-object-result"
    | .reference address =>
        match redactByAllowlist (SERVER_SAFE_FIELDS canon) (.reference address) memory with
        | (memory, none) => failClosed memory canon tool "bounds-exceeded"
        | (memory, some value) =>
            (memory, { outcome := .redacted, result := value, reason := some "sensitive-tool" })
  else (memory, { outcome := .passthrough, result, reason := none })

end LowerCase

/-! ## What the walk leaves as it was -/

/-- The cells below an address are as they were, and no cell is taken back. -/
structure Keeps (base : Nat) (s s' : WalkState) : Prop where
  next_le : s.memory.next ≤ s'.memory.next
  get_eq : ∀ a < base, s'.memory.get a = s.memory.get a

namespace Keeps

variable {base : Nat} {s s' s'' : WalkState}

theorem refl (base : Nat) (s : WalkState) : Keeps base s s := ⟨le_rfl, fun _ _ => rfl⟩

theorem trans (h : Keeps base s s') (h' : Keeps base s' s'') : Keeps base s s'' :=
  ⟨h.next_le.trans h'.next_le, fun a ha => (h'.get_eq a ha).trans (h.get_eq a ha)⟩

theorem weaken {base' : Nat} (h : Keeps base s s') (hbase : base' ≤ base) : Keeps base' s s' :=
  ⟨h.next_le, fun a ha => h.get_eq a (ha.trans_le hbase)⟩

theorem count (base : Nat) (s : WalkState) : Keeps base s s.count := ⟨le_rfl, fun _ _ => rfl⟩

theorem write {out : Nat} (hout : base ≤ out) (s : WalkState) (change : Cell → Cell) :
    Keeps base s (s.write out change) := by
  refine ⟨le_rfl, fun a ha => ?_⟩
  rw [WalkState.write, Arena.get_modify, if_neg (by omega)]

theorem alloc (hbase : base ≤ s.memory.next) (cell : Cell) : Keeps base s (s.alloc cell) := by
  refine ⟨Nat.le_succ _, fun a ha => ?_⟩
  rw [WalkState.alloc, Arena.get_alloc, if_neg (by omega)]

/-- A loop keeps what its steps keep. -/
theorem each {β : Type} {step : β → WalkState → WalkState × Bool}
    (hstep : ∀ b s, base ≤ s.memory.next → Keeps base s (step b s).1) (l : List β)
    (hbase : base ≤ s.memory.next) : Keeps base s (eachOf step l s).1 := by
  induction l generalizing s with
  | nil => exact refl base s
  | cons b rest ih =>
      have hfirst := hstep b s hbase
      rw [eachOf]
      rcases hresult : step b s with ⟨s₁, ok⟩
      rw [hresult] at hfirst
      cases ok with
      | false => exact hfirst
      | true => exact hfirst.trans (ih (hbase.trans hfirst.next_le))

variable {walk : Value → WalkState → WalkState × Option Value} {safe : List String} {out : Nat}

theorem item (hwalk : ∀ value s, Keeps s.memory.next s (walk value s).1) (hout : base ≤ out)
    (value : Value) (hbase : base ≤ s.memory.next) :
    Keeps base s (redactItem walk out value s).1 := by
  have hwalked := ((hwalk value s.count).weaken hbase)
  unfold redactItem
  dsimp only
  split
  · exact count base s
  · rcases hresult : walk value s.count with ⟨s₁, result⟩
    rw [hresult] at hwalked
    cases result with
    | none => exact (count base s).trans hwalked
    | some value => exact (count base s).trans (hwalked.trans (write hout _ _))

theorem field (hwalk : ∀ value s, Keeps s.memory.next s (walk value s).1) (hout : base ≤ out)
    (value : String × Value) (hbase : base ≤ s.memory.next) :
    Keeps base s (redactField safe walk out value s).1 := by
  have hwalked := ((hwalk value.2 s.count).weaken hbase)
  unfold redactField
  dsimp only
  split_ifs
  · exact count base s
  · rcases hresult : walk value.2 s.count with ⟨s₁, result⟩
    rw [hresult] at hwalked
    cases result with
    | none => exact (count base s).trans hwalked
    | some value => exact (count base s).trans (hwalked.trans (write hout _ _))
  · exact (count base s).trans (write hout _ _)

end Keeps

/-- The walk writes to no cell that was there before, also where it gives up. -/
theorem keeps_redactLevels (safe : List String) (levels : Nat) (underSafeKey : Bool) (value : Value)
    (s : WalkState) : Keeps s.memory.next s (redactLevels safe levels underSafeKey value s).1 := by
  induction levels generalizing underSafeKey value s with
  | zero => exact Keeps.refl _ s
  | succ levels ih =>
      cases value with
      | scalar value => exact Keeps.refl _ s
      | reference address =>
          rw [redactLevels]
          cases hcell : s.memory.get address with
          | none => exact Keeps.refl _ s
          | some cell =>
              cases cell with
              | array items =>
                  -- the new cell comes first, and the loop writes into it and into newer ones
                  have hbase : s.memory.next ≤ (s.alloc (.array [])).memory.next := Nat.le_succ _
                  have hloop := Keeps.each
                    (fun b s => Keeps.item (fun v s => ih underSafeKey v s) le_rfl b) items hbase
                  have hwhole := (Keeps.alloc le_rfl (.array [])).trans hloop
                  dsimp only
                  split
                  · next hresult => rwa [hresult] at hwhole
                  · next hresult => rwa [hresult] at hwhole
              | object fields =>
                  have hbase : s.memory.next ≤ (s.alloc (.object [])).memory.next := Nat.le_succ _
                  -- below a safe key the walk goes on with the value of the field
                  have hstep : ∀ b t, s.memory.next ≤ t.memory.next → Keeps s.memory.next t
                      (redactField safe (redactLevels safe levels true) s.memory.next b t).1 :=
                    fun b _ => Keeps.field (fun v s => ih true v s) le_rfl b
                  have hloop := Keeps.each hstep fields hbase
                  have hwhole := (Keeps.alloc le_rfl (.object [])).trans hloop
                  dsimp only
                  split
                  · next hresult => rwa [hresult] at hwhole
                  · next hresult => rwa [hresult] at hwhole

/-- The input is not changed. -/
theorem get_redactByAllowlist (safe : List String) (value : Value) (memory : Memory) {a : Nat}
    (ha : a < memory.next) : (redactByAllowlist safe value memory).1.get a = memory.get a :=
  (keeps_redactLevels safe (MAX_DEPTH + 1) false value ⟨memory, 0⟩).get_eq a ha

end ThinkLocal.Mcp
