import ThinkLocal.Js.JsonValues

/-!
# Values without the order of their keys

A value is told by its shapes: what stands at each path of keys and indices.  Two values with the same
shapes are the same up to the order of the keys of their objects.

`JSON.stringify` with a list of keys keeps the fields with these keys only, in every object, and
writes them in the order of the list.  It reads them as the program does, so that `__proto__` is found
in every object.  The text tells exactly the shapes at the paths of listed keys.
-/

namespace ThinkLocal.Js.Json

/-! ## Paths and shapes -/

inductive Step
  | key (name : String)
  | index (i : ℕ)
deriving DecidableEq

/-- A value without what is in it. -/
inductive Shape
  | null
  | boolean (value : Bool)
  | number (value : Number)
  | string (text : String)
  | array (length : ℕ)
  | object
deriving DecidableEq

def shape : Json → Shape
  | null => .null
  | boolean value => .boolean value
  | number value => .number value
  | string text => .string text
  | array items => .array items.length
  | object _ => .object

/-- The way to the field of an object. -/
abbrev Lookup := List (String × Json) → String → Option Json

def child (lookup : Lookup) : Step → Json → Option Json
  | .key name, object fields => lookup fields name
  | .index i, array items => items[i]?
  | _, _ => none

/-- The shape at a path. -/
def shapeAt (lookup : Lookup) : List Step → Json → Option Shape
  | [], value => some value.shape
  | step :: path, value => (child lookup step value).bind (shapeAt lookup path)

/-- The same shapes at all paths of some steps. -/
def Agree (lookup : Lookup) (allowed : Step → Prop) (value value' : Json) : Prop :=
  ∀ path : List Step, (∀ step ∈ path, allowed step) →
    shapeAt lookup path value = shapeAt lookup path value'

/-- The same values up to the order of the keys. -/
def Same (value value' : Json) : Prop := Agree fieldOf (fun _ => True) value value'

section Paths

variable {lookup : Lookup} {allowed : Step → Prop} {value value' : Json} {step : Step}

theorem Agree.shape_eq (h : Agree lookup allowed value value') : value.shape = value'.shape :=
  Option.some.inj (h [] fun _ hstep => nomatch hstep)

/-- Values that agree have the same children, and these agree. -/
theorem Agree.child (h : Agree lookup allowed value value') (hstep : allowed step) :
    Option.Rel (Agree lookup allowed) (child lookup step value) (child lookup step value') := by
  have hpath : ∀ path : List Step, (∀ step ∈ path, allowed step) →
      (Json.child lookup step value).bind (shapeAt lookup path) =
        (Json.child lookup step value').bind (shapeAt lookup path) :=
    fun path hallowed => h (step :: path) (List.forall_mem_cons.mpr ⟨hstep, hallowed⟩)
  have hhere := hpath [] fun _ hmem => nomatch hmem
  cases hvalue : Json.child lookup step value with
  | none =>
      cases hvalue' : Json.child lookup step value' with
      | none => exact .none
      | some other =>
          rw [hvalue, hvalue'] at hhere
          cases hhere
  | some inner =>
      cases hvalue' : Json.child lookup step value' with
      | none =>
          rw [hvalue, hvalue'] at hhere
          cases hhere
      | some other =>
          refine .some fun path hallowed => ?_
          have hinner := hpath path hallowed
          rwa [hvalue, hvalue'] at hinner

end Paths

/-- A value is a leaf, or its items or fields come before it. -/
@[elab_as_elim]
theorem induction {motive : Json → Prop} (leaf : ∀ value, (∀ items, value ≠ array items) →
      (∀ fields, value ≠ object fields) → motive value)
    (array : ∀ items, (∀ item ∈ items, motive item) → motive (array items))
    (object : ∀ fields, (∀ field ∈ fields, motive field.2) → motive (object fields)) :
    ∀ value, motive value
  | .null | .boolean _ | .number _ | .string _ => by
      exact leaf _ (fun _ => nofun) (fun _ => nofun)
  | .array items => array items (items' items)
  | .object fields => object fields (fields' fields)
where
  items' : ∀ (items : List Json), ∀ item ∈ items, motive item
    | [] => fun _ h => nomatch h
    | item :: items => List.forall_mem_cons.mpr
        ⟨induction leaf array object item, items' items⟩
  fields' : ∀ (fields : List (String × Json)), ∀ field ∈ fields, motive field.2
    | [] => fun _ h => nomatch h
    | (_, value) :: fields => List.forall_mem_cons.mpr
        ⟨induction leaf array object value, fields' fields⟩

/-! ## Listed keys -/

/-- What `JSON.stringify` writes of `Object.prototype`: its functions are left out. -/
def objectPrototype : Json := object [("__proto__", null)]

/-- `object[key]`. -/
def readField (fields : List (String × Json)) (key : String) : Option Json :=
  (fieldOf fields key).or (if key = "__proto__" then some objectPrototype else none)

mutual

/-- A value with the listed keys only, in the order of the list. -/
def selected (keys : List String) : Json → Json
  | array items => array (selectedItems keys items)
  | object fields =>
      object (keys.filterMap fun key => (readField (selectedFields keys fields) key).map (key, ·))
  | value => value

def selectedItems (keys : List String) : List Json → List Json
  | [] => []
  | item :: items => selected keys item :: selectedItems keys items

def selectedFields (keys : List String) : List (String × Json) → List (String × Json)
  | [] => []
  | (key, value) :: fields => (key, selected keys value) :: selectedFields keys fields

end

/-- `JSON.stringify(value, keys)`. -/
def stringifyListed (keys : List String) (value : Json) : String := stringify 0 (selected keys value)

/-- An index, or a listed key. -/
def Listed (keys : List String) : Step → Prop
  | .key name => name ∈ keys
  | .index _ => True

instance (keys : List String) : DecidablePred (Listed keys)
  | .key name => inferInstanceAs (Decidable (name ∈ keys))
  | .index _ => .isTrue trivial

section Listed

variable {keys : List String} {value value' : Json} {fields : List (String × Json)} {name : String}

theorem selectedItems_eq_map (items : List Json) :
    selectedItems keys items = items.map (selected keys) := by
  induction items with
  | nil => rfl
  | cons item items ih => rw [selectedItems, ih, List.map_cons]

theorem fieldOf_selectedFields (fields : List (String × Json)) (name : String) :
    fieldOf (selectedFields keys fields) name = (fieldOf fields name).map (selected keys) := by
  induction fields with
  | nil => rfl
  | cons field fields ih =>
      obtain ⟨key, value⟩ := field
      rw [selectedFields, fieldOf_cons, fieldOf_cons, ih]
      split <;> rfl

theorem fieldOf_filterMap (read : String → Option Json) (keys : List String) (name : String) :
    fieldOf (keys.filterMap fun key => (read key).map (key, ·)) name =
      if name ∈ keys then read name else none := by
  induction keys with
  | nil => rfl
  | cons key keys ih =>
      rw [List.filterMap_cons]
      by_cases hname : key = name
      · subst hname
        rw [if_pos List.mem_cons_self]
        cases hread : read key with
        | none =>
            rw [Option.map_none, ih, hread]
            split <;> rfl
        | some value => rw [Option.map_some, fieldOf_cons, if_pos rfl]
      · have hmem : name ∈ key :: keys ↔ name ∈ keys := by
          rw [List.mem_cons, or_iff_right (Ne.symm hname)]
        simp only [hmem, ← ih]
        cases read key with
        | none => rfl
        | some value => rw [Option.map_some, fieldOf_cons, if_neg hname]

theorem filterMap_of_single (hkeys : keys.Nodup) (h : name ∈ keys) (value : Json) :
    keys.filterMap (fun key => (if key = name then some value else none).map (key, ·)) =
      [(name, value)] := by
  induction keys with
  | nil => cases h
  | cons key keys ih =>
      obtain ⟨hkey, hrest⟩ := List.nodup_cons.mp hkeys
      rw [List.filterMap_cons]
      by_cases hname : key = name
      · subst hname
        have hnone : keys.filterMap
            (fun other => (if other = key then some value else none).map (other, ·)) = [] := by
          refine List.filterMap_eq_nil_iff.mpr fun other hother => ?_
          rw [if_neg (ne_of_mem_of_not_mem hother hkey), Option.map_none]
        rw [if_pos rfl, Option.map_some, hnone]
      · rw [if_neg hname, Option.map_none]
        exact ih hrest ((List.mem_cons.mp h).resolve_left (Ne.symm hname))

theorem selected_objectPrototype (hkeys : keys.Nodup) (h : "__proto__" ∈ keys) :
    selected keys objectPrototype = objectPrototype := by
  have hread : ∀ key, readField (selectedFields keys [("__proto__", null)]) key =
      if key = "__proto__" then some null else none := by
    intro key
    by_cases hkey : key = "__proto__"
    · rw [hkey]
      rfl
    · rw [readField, fieldOf_selectedFields, fieldOf_cons, if_neg (Ne.symm hkey), if_neg hkey,
        if_neg hkey]
      rfl
  rw [objectPrototype, selected]
  simp only [hread]
  rw [filterMap_of_single hkeys h]

/-- What is read of an object that keeps the listed keys. -/
theorem readField_selectedFields (hkeys : keys.Nodup) (h : name ∈ keys) :
    readField (selectedFields keys fields) name = (readField fields name).map (selected keys) := by
  rw [readField, readField, fieldOf_selectedFields]
  cases fieldOf fields name with
  | some value => rfl
  | none =>
      simp only [Option.map_none, Option.none_or]
      split_ifs with hname
      · subst hname
        rw [Option.map_some, selected_objectPrototype hkeys h]
      · rfl

/-- The children that are kept are those at the listed steps. -/
theorem child_selected (hkeys : keys.Nodup) (step : Step) (value : Json) :
    child fieldOf step (selected keys value) =
      if Listed keys step then (child readField step value).map (selected keys) else none := by
  cases step with
  | index i =>
      have hlisted : Listed keys (.index i) := trivial
      rw [if_pos hlisted]
      cases value with
      | array items => rw [selected, child, child, selectedItems_eq_map, List.getElem?_map]
      | object fields =>
          rw [selected]
          rfl
      | _ => rfl
  | key name =>
      have hlisted : Listed keys (.key name) ↔ name ∈ keys := Iff.rfl
      simp only [hlisted]
      cases value with
      | object fields =>
          rw [selected, child, child, fieldOf_filterMap]
          by_cases hname : name ∈ keys
          · rw [if_pos hname, readField_selectedFields hkeys hname, if_pos hname]
          · rw [if_neg hname, if_neg hname]
      | array items =>
          rw [selected]
          exact (ite_self _).symm
      | _ => exact (ite_self _).symm

theorem nodup_filterMap (hkeys : keys.Nodup) (read : String → Option Json) :
    ((keys.filterMap fun key => (read key).map (key, ·)).map Prod.fst).Nodup := by
  have hsub : ((keys.filterMap fun key => (read key).map (key, ·)).map Prod.fst).Sublist keys := by
    induction keys with
    | nil => exact List.Sublist.slnil
    | cons key keys ih =>
        rw [List.filterMap_cons]
        cases read key with
        | none => exact (ih (List.nodup_cons.mp hkeys).2).cons key
        | some value => exact (ih (List.nodup_cons.mp hkeys).2).cons_cons key
  exact hsub.nodup hkeys

/-- Reading back what was written keeps the children. -/
theorem child_reread_selected (hkeys : keys.Nodup) (step : Step) (value : Json) :
    child fieldOf step (selected keys value).reread =
      (child fieldOf step (selected keys value)).map reread := by
  cases value with
  | array items =>
      rw [selected, reread]
      cases step with
      | key name => rfl
      | index i => rw [child, child, rereadItems_eq_map, List.getElem?_map]
  | object fields =>
      rw [selected, reread]
      cases step with
      | key name => rw [child, child, fieldOf_reread (nodup_filterMap hkeys _)]
      | index i => rfl
  | number x => cases x <;> cases step <;> rfl
  | _ => cases step <;> rfl

theorem representable_objectPrototype : objectPrototype.Representable := by
  rw [objectPrototype, Representable, RepresentableFields]
  exact ⟨by decide, trivial, trivial⟩

/-- A child of a value that JSON represents is such a value. -/
theorem Representable.child {step : Step} (h : value.Representable)
    (hchild : child readField step value = some value') : value'.Representable := by
  cases value with
  | array items =>
      cases step with
      | key name => cases hchild
      | index i => exact representableItems_iff.mp h value' (List.mem_of_getElem? hchild)
  | object fields =>
      cases step with
      | index i => cases hchild
      | key name =>
          rw [Json.child, readField, Option.or_eq_some_iff] at hchild
          rcases hchild with hown | ⟨-, hinherited⟩
          · obtain ⟨field, hfield, rfl⟩ := Option.map_eq_some_iff.mp hown
            exact representableFields_iff.mp h.2 field (List.mem_of_find?_eq_some hfield)
          · obtain ⟨-, hproto⟩ := Option.ite_none_right_eq_some.mp hinherited
            obtain rfl := Option.some.inj hproto
            exact representable_objectPrototype
  | _ => cases step <;> cases hchild

theorem shape_reread_selected (h : value.Representable) :
    (selected keys value).reread.shape = value.shape := by
  cases value with
  | array items =>
      rw [selected, reread, shape, shape, rereadItems_eq_map, selectedItems_eq_map, List.length_map,
        List.length_map]
  | object fields =>
      rw [selected, reread]
      rfl
  | number x =>
      rw [selected, reread_of_representable (number x) h]
      · exact fun _ => nofun
      · exact fun _ => nofun
  | _ => rfl

/-- The text of the listed keys shows the shapes at the paths of listed keys and no others. -/
theorem shapeAt_reread_selected (hkeys : keys.Nodup) (path : List Step) (h : value.Representable) :
    shapeAt fieldOf path (selected keys value).reread =
      if ∀ step ∈ path, Listed keys step then shapeAt readField path value else none := by
  induction path generalizing value with
  | nil =>
      have hnil : ∀ step ∈ ([] : List Step), Listed keys step := fun _ hstep => nomatch hstep
      rw [if_pos hnil]
      exact congrArg some (shape_reread_selected h)
  | cons step path ih =>
      simp only [List.forall_mem_cons]
      rw [shapeAt, child_reread_selected hkeys, child_selected hkeys, shapeAt]
      by_cases hstep : Listed keys step
      · rw [if_pos hstep]
        simp only [hstep, true_and]
        cases hchild : child readField step value with
        | none => simp
        | some inner =>
            have hinner := ih (h.child hchild)
            rwa [Option.map_some, Option.map_some, Option.bind_some, Option.bind_some]
      · rw [if_neg hstep, if_neg fun hall => hstep hall.1]
        rfl

/-! ### Values with the same text -/

theorem map_selected_of_rel {x y : Option Json} (h : Option.Rel (Agree readField (Listed keys)) x y)
    (hinner : ∀ inner ∈ x, ∀ other, Agree readField (Listed keys) inner other →
      selected keys inner = selected keys other) : x.map (selected keys) = y.map (selected keys) := by
  cases h with
  | none => rfl
  | some hagree => exact congrArg some (hinner _ rfl _ hagree)

/-- Objects are selected alike if what is read of them is. -/
theorem selected_object_eq {fields' : List (String × Json)} (hkeys : keys.Nodup)
    (h : ∀ key ∈ keys, (readField fields key).map (selected keys) =
      (readField fields' key).map (selected keys)) :
    selected keys (object fields) = selected keys (object fields') := by
  rw [selected, selected]
  congr 1
  refine List.filterMap_congr fun key hkey => ?_
  rw [readField_selectedFields hkeys hkey, readField_selectedFields hkeys hkey, h key hkey]

theorem eq_of_leaf (hitems : ∀ items, value ≠ array items)
    (hfields : ∀ fields, value ≠ object fields) (h : value.shape = value'.shape) :
    value = value' := by
  cases value with
  | array items => exact absurd rfl (hitems items)
  | object fields => exact absurd rfl (hfields fields)
  | _ =>
      cases value' with
      | _ => cases h <;> rfl

/-- An inherited object is selected as one that agrees with it. -/
theorem selected_objectPrototype_eq (hkeys : keys.Nodup)
    (h : Agree readField (Listed keys) objectPrototype value) :
    selected keys objectPrototype = selected keys value := by
  cases value with
  | object fields =>
      refine selected_object_eq hkeys fun key hkey => ?_
      have hlisted : Listed keys (.key key) := hkey
      refine map_selected_of_rel (h.child hlisted) fun inner hinner other hagree => ?_
      by_cases hproto : key = "__proto__"
      · subst hproto
        obtain rfl : null = inner := Option.some.inj hinner
        have hnull : null = other :=
          eq_of_leaf (fun _ => nofun) (fun _ => nofun) hagree.shape_eq
        rw [hnull]
      · rw [readField, fieldOf_cons, if_neg (Ne.symm hproto), if_neg hproto] at hinner
        cases hinner
  | _ => cases h.shape_eq

theorem selected_eq_of_agree (hkeys : keys.Nodup) (h : Agree readField (Listed keys) value value') :
    selected keys value = selected keys value' := by
  induction value using Json.induction generalizing value' with
  | leaf value hitems hfields => rw [eq_of_leaf hitems hfields h.shape_eq]
  | array items ih =>
      cases value' with
      | array items' =>
          have hlength : items.length = items'.length := Shape.array.inj h.shape_eq
          rw [selected, selected, selectedItems_eq_map, selectedItems_eq_map]
          congr 1
          refine List.ext_getElem? fun i => ?_
          rw [List.getElem?_map, List.getElem?_map]
          have hlisted : Listed keys (.index i) := trivial
          refine map_selected_of_rel (h.child hlisted) fun inner hinner other hagree => ?_
          exact ih inner (List.mem_of_getElem? hinner) hagree
      | _ => cases h.shape_eq
  | object fields ih =>
      cases value' with
      | object fields' =>
          refine selected_object_eq hkeys fun key hkey => ?_
          have hlisted : Listed keys (.key key) := hkey
          refine map_selected_of_rel (h.child hlisted) fun inner hinner other hagree => ?_
          rw [Option.mem_def, readField, Option.or_eq_some_iff] at hinner
          -- the key is a property of the value or inherited from its prototype
          rcases hinner with hown | ⟨-, hinherited⟩
          · obtain ⟨field, hfield, rfl⟩ := Option.map_eq_some_iff.mp hown
            exact ih field (List.mem_of_find?_eq_some hfield) hagree
          · obtain ⟨-, hproto⟩ := Option.ite_none_right_eq_some.mp hinherited
            obtain rfl := Option.some.inj hproto
            exact selected_objectPrototype_eq hkeys hagree
      | _ => cases h.shape_eq

/-- The text of the listed keys tells the shapes at the paths of listed keys. -/
theorem stringifyListed_eq_iff (hkeys : keys.Nodup) (h : value.Representable)
    (h' : value'.Representable) :
    stringifyListed keys value = stringifyListed keys value' ↔
      Agree readField (Listed keys) value value' := by
  constructor
  · intro htext path hpath
    have hparse := congrArg parse htext
    rw [stringifyListed, stringifyListed, parse_stringify, parse_stringify] at hparse
    have hshape := shapeAt_reread_selected hkeys path h
    rw [Option.some.inj hparse, shapeAt_reread_selected hkeys path h', if_pos hpath,
      if_pos hpath] at hshape
    exact hshape.symm
  · intro hagree
    rw [stringifyListed, stringifyListed, selected_eq_of_agree hkeys hagree]

/-- What is the same is read alike. -/
theorem Same.shapeAt_readField (h : Same value value') (path : List Step) :
    shapeAt readField path value = shapeAt readField path value' := by
  induction path generalizing value value' with
  | nil => exact congrArg some h.shape_eq
  | cons step path ih =>
      have hbind : ∀ {x y : Option Json}, Option.Rel Same x y →
          x.bind (shapeAt readField path) = y.bind (shapeAt readField path) := by
        intro x y hrel
        cases hrel with
        | none => rfl
        | some hinner => exact ih hinner
      have hrel : Option.Rel Same (Json.child fieldOf step value) (Json.child fieldOf step value') :=
        h.child trivial
      rw [shapeAt, shapeAt]
      cases value with
      | object fields =>
          cases value' with
          | object fields' =>
              cases step with
              | index i => rfl
              | key name =>
                  rw [Json.child, Json.child] at hrel ⊢
                  rw [readField, readField]
                  -- the own property comes first, the inherited one is the same on both sides
                  generalize fieldOf fields name = x at hrel
                  generalize fieldOf fields' name = y at hrel
                  cases hrel with
                  | none => rfl
                  | some hinner => exact ih hinner
          | _ => cases h.shape_eq
      | array items =>
          cases value' with
          | array items' =>
              cases step with
              | index i => exact hbind hrel
              | key name => rfl
          | _ => cases h.shape_eq
      | _ =>
          cases value' with
          | _ => cases h.shape_eq <;> rfl

theorem Same.agree_readField (h : Same value value') (allowed : Step → Prop) :
    Agree readField allowed value value' := fun path _ => h.shapeAt_readField path

end Listed

end ThinkLocal.Js.Json
