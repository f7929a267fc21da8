import ThinkLocal.Foundation.InsertionMap
import ThinkLocal.Foundation.Machine

/-!
# The cache of schema validators

`schema-validator.ts`.  A `Validator` of the library is made once per key and kept; the key is the
`$id` of the schema where it has one and the hash of its JSON text elsewhere.  The objects belong
to the callers, who may change them between two calls.
-/

namespace ThinkLocal.Skills

open Foundation

/-! ## Keys and results -/

/-- `schema['$id']`, as far as `??` and the keys of a `Map` tell its values apart. -/
inductive SchemaId (Ident : Type)
  | nullish
  | text (id : String)
  | other (ident : Ident)

inductive CacheKey (Ident : Type)
  | text (id : String)
  | other (ident : Ident)
  deriving DecidableEq

/-- What the library reports for one violation. -/
structure OutputUnit where
  instanceLocation : String
  error : String
  deriving DecidableEq

structure Output where
  valid : Bool
  errors : List OutputUnit
  deriving DecidableEq

structure ValidationResult where
  valid : Bool
  errors : List String
  deriving DecidableEq

def OutputUnit.text (e : OutputUnit) : String :=
  e.instanceLocation ++ ": " ++ e.error

def Output.result (output : Output) : ValidationResult :=
  if output.valid then ⟨true, []⟩ else ⟨false, output.errors.map OutputUnit.text⟩

/-- What lies outside: how a schema is read and written as JSON (without a text for some), the hash,
and the library.  `check made now data` is the verdict of a validator made from the content `made`
while its object holds the content `now`. -/
structure SchemaDeps (Schema Data Ident Thrown : Type) where
  id : Schema → SchemaId Ident
  stringify : Schema → Except Thrown (Option String)
  sha256 : Option String → Except Thrown String
  construct : Schema → Except Thrown Unit
  check : Schema → Schema → Data → Except Thrown Output

/-- A validator in the cache: the object it was made for and what that object held. -/
structure CachedValidator (Ref Schema : Type) where
  schema : Ref
  made : Schema

structure ValidationWarning where
  label : String
  errors : List String
  deriving DecidableEq

structure SchemaValidator (Ref Schema Ident : Type) where
  cache : InsertionMap (CacheKey Ident) (CachedValidator Ref Schema)
  warnings : List ValidationWarning

/-! ## Validation -/

section Validate

variable {Ref Schema Data Ident Thrown : Type} [DecidableEq Ident]
  (deps : SchemaDeps Schema Data Ident Thrown)

def schemaKey (schema : Schema) : Except Thrown (CacheKey Ident) :=
  match deps.id schema with
  | .text id => .ok (.text id)
  | .other ident => .ok (.other ident)
  | .nullish => ((deps.stringify schema).bind deps.sha256).map .text

/-- What a validator made for this call alone answers. -/
def freshResult (schema : Schema) (data : Data) : Except Thrown ValidationResult :=
  (deps.construct schema).bind fun _ => (deps.check schema schema data).map Output.result

/-- The validator under a key, made and kept if there is none. -/
def validatorFor (validator : SchemaValidator Ref Schema Ident) (key : CacheKey Ident)
    (schema : Ref) (content : Schema) :
    Except Thrown (CachedValidator Ref Schema × SchemaValidator Ref Schema Ident) :=
  match validator.cache.get key with
  | some cached => .ok (cached, validator)
  | none => (deps.construct content).map fun _ =>
      (⟨schema, content⟩, { validator with cache := validator.cache.set key ⟨schema, content⟩ })

/-- A warning for a result that is not valid. -/
def warn (validator : SchemaValidator Ref Schema Ident) (label : String) :
    Except Thrown ValidationResult → SchemaValidator Ref Schema Ident
  | .ok ⟨false, errors⟩ => { validator with warnings := validator.warnings ++ [⟨label, errors⟩] }
  | _ => validator

/-- `validate`: the answer, and the validator after it.  `heap` gives what the objects hold now. -/
def validate (heap : Ref → Schema) (validator : SchemaValidator Ref Schema Ident) (data : Data)
    (schema : Ref) (label : String) :
    Except Thrown ValidationResult × SchemaValidator Ref Schema Ident :=
  match (schemaKey deps (heap schema)).bind fun key =>
      validatorFor deps validator key schema (heap schema) with
  | .error thrown => (.error thrown, validator)
  | .ok (cached, validator') =>
      let result := (deps.check cached.made (heap cached.schema) data).map Output.result
      (result, warn validator' label result)

def validateTaskInput (heap : Ref → Schema) (validator : SchemaValidator Ref Schema Ident)
    (input : Data) (inputSchema : Ref) :
    Except Thrown ValidationResult × SchemaValidator Ref Schema Ident :=
  validate deps heap validator input inputSchema "task-input"

def validateTaskOutput (heap : Ref → Schema) (validator : SchemaValidator Ref Schema Ident)
    (output : Data) (outputSchema : Ref) :
    Except Thrown ValidationResult × SchemaValidator Ref Schema Ident :=
  validate deps heap validator output outputSchema "task-output"

def clearCache (validator : SchemaValidator Ref Schema Ident) : SchemaValidator Ref Schema Ident :=
  { validator with cache := .empty }

end Validate

/-! ## Runs -/

/-- A call that got a validator: its key, its schema object and what the object held. -/
structure SchemaCall (Ref Schema Ident : Type) where
  key : CacheKey Ident
  schema : Ref
  content : Schema

/-- The answer of a call beside what the call was about. -/
structure SchemaAnswer (Schema Data Thrown : Type) where
  content : Schema
  data : Data
  result : Except Thrown ValidationResult

/-- The objects, the validator, the calls since the last clearing and the answers of all calls. -/
structure SchemaWorld (Ref Schema Data Ident Thrown : Type) where
  heap : Ref → Schema
  validator : SchemaValidator Ref Schema Ident
  calls : List (SchemaCall Ref Schema Ident)
  answers : List (SchemaAnswer Schema Data Thrown)

inductive SchemaAction (Ref Schema Data : Type)
  | validate (data : Data) (schema : Ref) (label : Option String)
  | validateTaskInput (input : Data) (inputSchema : Ref)
  | validateTaskOutput (output : Data) (outputSchema : Ref)
  | clearCache
  /-- The owner changes an object. -/
  | change (schema : Ref) (content : Schema)

section Runs

variable {Ref Schema Data Ident Thrown : Type} [DecidableEq Ref] [DecidableEq Ident]
  (deps : SchemaDeps Schema Data Ident Thrown)

/-- The calls after one more: a call counts once it has got a validator. -/
def SchemaWorld.callsAfter (w : SchemaWorld Ref Schema Data Ident Thrown) (schema : Ref) :
    List (SchemaCall Ref Schema Ident) :=
  match (schemaKey deps (w.heap schema)).bind fun key =>
      (validatorFor deps w.validator key schema (w.heap schema)).map fun _ => key with
  | .error _ => w.calls
  | .ok key => w.calls ++ [⟨key, schema, w.heap schema⟩]

/-- A call with its answer on record. -/
def SchemaWorld.record (w : SchemaWorld Ref Schema Data Ident Thrown) (data : Data) (schema : Ref)
    (answer : Except Thrown ValidationResult × SchemaValidator Ref Schema Ident) :
    SchemaWorld Ref Schema Data Ident Thrown :=
  { w with
    validator := answer.2
    calls := w.callsAfter deps schema
    answers := w.answers ++ [⟨w.heap schema, data, answer.1⟩] }

def schemaMachine (heap : Ref → Schema) :
    Machine (SchemaWorld Ref Schema Data Ident Thrown) (SchemaAction Ref Schema Data) where
  init := ⟨heap, ⟨.empty, []⟩, [], []⟩
  step w
    | .validate data schema label => some <| w.record deps data schema
        (validate deps w.heap w.validator data schema (label.getD "data"))
    | .validateTaskInput input schema => some <| w.record deps input schema
        (validateTaskInput deps w.heap w.validator input schema)
    | .validateTaskOutput output schema => some <| w.record deps output schema
        (validateTaskOutput deps w.heap w.validator output schema)
    | .clearCache => some { w with validator := clearCache w.validator, calls := [] }
    | .change schema content => some { w with heap := Function.update w.heap schema content }

/-- The schema of a call has a key, and the first schema given under this key since the last
clearing had the same content and still has it. -/
def SameSchema (w : SchemaWorld Ref Schema Data Ident Thrown) (schema : Ref) : Prop :=
  ∃ key, schemaKey deps (w.heap schema) = .ok key ∧
    ∀ first, w.calls.find? (fun call => call.key = key) = some first →
      first.content = w.heap schema ∧ w.heap first.schema = w.heap schema

/-- The same for the schema of a step, if it is a call. -/
def SameSchemaStep (w : SchemaWorld Ref Schema Data Ident Thrown) :
    SchemaAction Ref Schema Data → Prop
  | .validate _ schema _ | .validateTaskInput _ schema | .validateTaskOutput _ schema =>
      SameSchema deps w schema
  | .clearCache | .change _ _ => True

/-- The cache holds the validator of the first call under each key, and the library made it. -/
structure CacheOfCalls (w : SchemaWorld Ref Schema Data Ident Thrown) : Prop where
  first : ∀ key, w.validator.cache.get key =
    (w.calls.find? fun call => call.key = key).map fun call => ⟨call.schema, call.content⟩
  constructed : ∀ key cached, w.validator.cache.get key = some cached →
    deps.construct cached.made = .ok ()

def AnswersFresh (w : SchemaWorld Ref Schema Data Ident Thrown) : Prop :=
  ∀ answer ∈ w.answers, answer.result = freshResult deps answer.content answer.data

end Runs

section Laws

variable {Ref Schema Data Ident Thrown : Type} [DecidableEq Ident]
  {deps : SchemaDeps Schema Data Ident Thrown} {w : SchemaWorld Ref Schema Data Ident Thrown}
  {schema : Ref} {data : Data} {label : String}

omit [DecidableEq Ident] in
@[simp] theorem warn_cache (validator : SchemaValidator Ref Schema Ident) (label : String)
    (result : Except Thrown ValidationResult) : (warn validator label result).cache =
      validator.cache := by
  unfold warn
  split <;> rfl

/-- A call finds the validator of its key, or the library makes it for the schema of the call. -/
theorem validatorFor_cases {validator : SchemaValidator Ref Schema Ident} {key : CacheKey Ident}
    {content : Schema} {made : CachedValidator Ref Schema × SchemaValidator Ref Schema Ident}
    (h : validatorFor deps validator key schema content = .ok made) :
    (validator.cache.get key = some made.1 ∧ made.2 = validator) ∨
    (validator.cache.get key = none ∧ deps.construct content = .ok () ∧
      made.1 = ⟨schema, content⟩ ∧
      made.2.cache = validator.cache.set key ⟨schema, content⟩) := by
  unfold validatorFor at h
  cases hget : validator.cache.get key with
  | some cached =>
      rw [hget] at h
      obtain rfl := Except.ok.inj h
      exact .inl ⟨rfl, rfl⟩
  | none =>
      rw [hget] at h
      cases hnew : deps.construct content with
      | error thrown => rw [hnew] at h; cases h
      | ok =>
          rw [hnew] at h
          obtain rfl := Except.ok.inj h
          exact .inr ⟨rfl, rfl, rfl, rfl⟩

/-- A call keeps the cache that of the first calls. -/
theorem CacheOfCalls.validate (h : CacheOfCalls deps w) :
    CacheOfCalls deps (w.record deps data schema
      (validate deps w.heap w.validator data schema label)) := by
  simp only [SchemaWorld.record, SchemaWorld.callsAfter, Skills.validate]
  cases hkey : schemaKey deps (w.heap schema) with
  | error thrown => exact ⟨h.first, h.constructed⟩
  | ok key =>
      simp only [Except.bind]
      cases hmade : validatorFor deps w.validator key schema (w.heap schema) with
      | error thrown => exact ⟨h.first, h.constructed⟩
      | ok made =>
          simp only [Except.map]
          rcases validatorFor_cases hmade with ⟨hget, hsame⟩ | ⟨hget, hnew, -, hset⟩
          · refine ⟨fun key' => ?_, fun key' cached => ?_⟩
            · rw [warn_cache, hsame, h.first key', List.find?_append]
              cases hfind : w.calls.find? (fun call => call.key = key') with
              | some call => rfl
              | none =>
                  -- a key without a call is not the key of this one
                  have hne : key ≠ key' := by
                    rintro rfl
                    rw [h.first key, hfind] at hget
                    cases hget
                  simp [hne]
            · rw [warn_cache, hsame]
              exact h.constructed key' cached
          · refine ⟨fun key' => ?_, fun key' cached hcached => ?_⟩
            · rw [warn_cache, hset, List.find?_append, InsertionMap.get_set]
              by_cases hk : key' = key
              · subst hk
                rw [h.first key', Option.map_eq_none_iff] at hget
                rw [if_pos rfl, hget]
                simp
              · rw [if_neg hk, h.first key']
                simp [Ne.symm hk]
            · rw [warn_cache, hset, InsertionMap.get_set] at hcached
              by_cases hk : key' = key
              · rw [if_pos hk] at hcached
                obtain rfl := Option.some.inj hcached
                exact hnew
              · rw [if_neg hk] at hcached
                exact h.constructed key' cached hcached

/-- Where the first schema of its key is the same, a call answers as a fresh validator. -/
theorem validate_eq_fresh (h : CacheOfCalls deps w) (hsame : SameSchema deps w schema) :
    (validate deps w.heap w.validator data schema label).1 =
      freshResult deps (w.heap schema) data := by
  obtain ⟨key, hkey, hfirst⟩ := hsame
  simp only [validate, hkey, Except.bind, freshResult]
  cases hmade : validatorFor deps w.validator key schema (w.heap schema) with
  | error thrown =>
      unfold validatorFor at hmade
      cases hget : w.validator.cache.get key with
      | some cached => rw [hget] at hmade; cases hmade
      | none =>
          rw [hget] at hmade
          cases hnew : deps.construct (w.heap schema) with
          | error thrown' =>
              rw [hnew] at hmade
              obtain rfl := Except.error.inj hmade
              rfl
          | ok => rw [hnew] at hmade; cases hmade
  | ok made =>
      rcases validatorFor_cases hmade with ⟨hget, -⟩ | ⟨-, hnew, hmine, -⟩
      · -- what is in the cache was made from the first schema of the key
        have hcall := h.first key
        rw [hget] at hcall
        obtain ⟨first, hfind, hmine⟩ := Option.map_eq_some_iff.mp hcall.symm
        obtain ⟨hcontent, hnow⟩ := hfirst first hfind
        have hnew := h.constructed key made.1 hget
        dsimp only
        rw [← hmine] at hnew ⊢
        rw [hcontent] at hnew ⊢
        rw [hnow, hnew]
      · dsimp only
        rw [hmine, hnew]

/-- A call under the condition keeps the account of the answers. -/
theorem AnswersFresh.record (h : AnswersFresh deps w) (hcache : CacheOfCalls deps w)
    (hsame : SameSchema deps w schema) :
    AnswersFresh deps (w.record deps data schema
      (validate deps w.heap w.validator data schema label)) := by
  intro answer hanswer
  rcases List.mem_append.mp hanswer with hold | hnew
  · exact h answer hold
  · obtain rfl := List.mem_singleton.mp hnew
    exact validate_eq_fresh hcache hsame

variable [DecidableEq Ref] {heap : Ref → Schema}

theorem cacheOfCalls_of_reachable (h : (schemaMachine deps heap).Reachable w) :
    CacheOfCalls deps w := by
  refine Machine.Reachable.invariant ⟨fun _ => rfl, fun _ _ h => by cases h⟩ ?_ h
  intro w action w' hw hstep
  cases action with
  | validate data schema label => obtain rfl := Option.some.inj hstep; exact hw.validate
  | validateTaskInput input schema => obtain rfl := Option.some.inj hstep; exact hw.validate
  | validateTaskOutput output schema => obtain rfl := Option.some.inj hstep; exact hw.validate
  | clearCache =>
      obtain rfl := Option.some.inj hstep
      exact ⟨fun _ => rfl, fun _ _ h => by cases h⟩
  | change schema content =>
      obtain rfl := Option.some.inj hstep
      exact ⟨hw.first, hw.constructed⟩

/-- In a run that gives every key one schema and leaves it unchanged, all calls answer as fresh
validators do. -/
theorem schema_answers_fresh
    (h : (schemaMachine deps heap).ReachableUnder (SameSchemaStep deps) w) :
    ∀ answer ∈ w.answers, answer.result = freshResult deps answer.content answer.data := by
  refine Machine.ReachableUnder.invariant_with (I := AnswersFresh deps)
    (fun _ h => cacheOfCalls_of_reachable h) (fun _ h => by cases h) ?_ h
  intro w action w' hcache hw hsame hstep
  cases action with
  | validate data schema label =>
      obtain rfl := Option.some.inj hstep
      exact hw.record hcache hsame
  | validateTaskInput input schema =>
      obtain rfl := Option.some.inj hstep
      exact hw.record hcache hsame
  | validateTaskOutput output schema =>
      obtain rfl := Option.some.inj hstep
      exact hw.record hcache hsame
  | clearCache => obtain rfl := Option.some.inj hstep; exact hw
  | change schema content => obtain rfl := Option.some.inj hstep; exact hw

end Laws

/-! ## Two schemas under one name -/

/-- A schema that asks for values of one type. -/
structure TypeSchema where
  id : Option String
  type : String
  deriving DecidableEq

def TypeSchema.json (schema : TypeSchema) : String :=
  match schema.id with
  | some id => "\x7b\"$id\":\"" ++ id ++ "\",\"type\":\"" ++ schema.type ++ "\"\x7d"
  | none => "\x7b\"type\":\"" ++ schema.type ++ "\"\x7d"

/-- The library on such schemas, for data given by its type; it reads the object as it is now. -/
def typeSchemaDeps : SchemaDeps TypeSchema String Unit String where
  id schema := match schema.id with
    | some id => .text id
    | none => .nullish
  stringify schema := .ok (some schema.json)
  sha256 text := .ok (text.getD "")
  construct _ := .ok ()
  check _ now data := .ok <|
    if data = now.type then ⟨true, []⟩
    else ⟨false, [⟨"#", "Instance type \"" ++ data ++ "\" is invalid. Expected \"" ++ now.type ++
      "\"."⟩]⟩

/-- The objects of two skills: both schemas are called `task`, a third has no name. -/
def skillSchemas : ℕ → TypeSchema
  | 0 => ⟨some "task", "string"⟩
  | 1 => ⟨some "task", "number"⟩
  | _ => ⟨none, "number"⟩

/-- The second skill's input is judged by the schema of the first. -/
theorem schema_of_another_skill :
    ∃ w, (schemaMachine typeSchemaDeps skillSchemas).Reachable w ∧
      ∃ answer ∈ w.answers, answer.content = ⟨some "task", "number"⟩ ∧ answer.data = "number" ∧
        answer.result.toOption = some ⟨false,
          ["#: Instance type \"number\" is invalid. Expected \"string\"."]⟩ ∧
        (freshResult typeSchemaDeps answer.content answer.data).toOption = some ⟨true, []⟩ := by
  have hrun : ((schemaMachine typeSchemaDeps skillSchemas).runFrom
      (schemaMachine typeSchemaDeps skillSchemas).init
      [.validateTaskInput "string" 0, .validateTaskInput "number" 1]).map (fun w =>
        w.answers.map fun answer => (answer.content, answer.data, answer.result.toOption)) =
      some [(⟨some "task", "string"⟩, "string", some ⟨true, []⟩),
        (⟨some "task", "number"⟩, "number", some ⟨false,
          ["#: Instance type \"number\" is invalid. Expected \"string\"."]⟩)] := by
    decide +kernel
  obtain ⟨w, hw, hanswers⟩ := Option.map_eq_some_iff.mp hrun
  refine ⟨w, Machine.reachable_of_runFrom hw, ?_⟩
  obtain ⟨answer, hanswer, heq⟩ := List.mem_map.mp (hanswers ▸ List.mem_cons_of_mem _
    (List.mem_singleton_self _))
  obtain ⟨hcontent, hdata, hresult⟩ := Prod.mk.inj heq |>.imp id Prod.mk.inj
  refine ⟨answer, hanswer, hcontent, hdata, hresult, ?_⟩
  rw [hcontent, hdata]
  decide +kernel

/-- Two schemas with keys of their own, the second used twice. -/
theorem schema_answers_fresh_twice :
    ∃ w : SchemaWorld ℕ TypeSchema String Unit String, w.answers.length = 3 ∧
      ∀ answer ∈ w.answers,
        answer.result = freshResult typeSchemaDeps answer.content answer.data := by
  have hrun : ((schemaMachine typeSchemaDeps skillSchemas).runFrom
      (schemaMachine typeSchemaDeps skillSchemas).init
      [.validateTaskInput "string" 0, .validateTaskOutput "number" 2,
        .validate "string" 2 none]).map (fun w => w.answers.length) = some 3 := by
    decide +kernel
  obtain ⟨w, hw, hlength⟩ := Option.map_eq_some_iff.mp hrun
  have hreach : (schemaMachine typeSchemaDeps skillSchemas).ReachableUnder
      (SameSchemaStep typeSchemaDeps) w := Machine.ReachableUnder.init.runFrom ?_ hw
  · exact ⟨w, hlength, schema_answers_fresh hreach⟩
  refine ⟨⟨.text "task", rfl, fun _ h => by cases h⟩, fun w₁ h₁ => ?_⟩
  obtain rfl := Option.some.inj h₁
  refine ⟨⟨_, rfl, fun first h => ?_⟩, fun w₂ h₂ => ?_⟩
  · cases h
  obtain rfl := Option.some.inj h₂
  refine ⟨⟨_, rfl, fun first h => ?_⟩, fun _ _ => trivial⟩
  obtain rfl := Option.some.inj h
  exact ⟨rfl, rfl⟩

end ThinkLocal.Skills
