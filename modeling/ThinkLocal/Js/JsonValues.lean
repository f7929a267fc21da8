import ThinkLocal.Js.Doubles
import ThinkLocal.Js.JsonRoundTrip

/-!
# Values that a program holds

The fields of an object stand in the order of objects, and a number is the one that its text spells.
Such a value has the same text again after it was written and read.
-/

namespace ThinkLocal.Js.Json

variable {fields : List (String × Json)} {key : String} {value : Json}

/-! ## The order of the fields -/

theorem precedes_trans {a b c : String} (hab : precedes a b = true) (hbc : precedes b c = true) :
    precedes a c = true := by
  unfold precedes at *
  cases ha : arrayIndex a <;> cases hb : arrayIndex b <;> cases hc : arrayIndex c <;>
    simp_all
  omega

theorem precedes_asymm {a b : String} (hab : precedes a b = true) : precedes b a = false := by
  unfold precedes at *
  cases ha : arrayIndex a <;> cases hb : arrayIndex b <;> simp_all
  omega

/-- No key twice, and no key before which another one belongs that stands behind it. -/
structure InOrder (fields : List (String × Json)) : Prop where
  nodup : (fields.map Prod.fst).Nodup
  sorted : (fields.map Prod.fst).Pairwise fun first second => precedes second first = false

instance : Decidable (InOrder fields) :=
  decidable_of_iff ((fields.map Prod.fst).Nodup ∧
      (fields.map Prod.fst).Pairwise fun first second => precedes second first = false)
    ⟨fun h => ⟨h.1, h.2⟩, fun h => ⟨h.nodup, h.sorted⟩⟩

/-- A field that belongs behind all others is put there. -/
theorem setField_of_last (hmem : key ∉ fields.map Prod.fst)
    (hlast : ∀ field ∈ fields, precedes key field.1 = false) :
    setField fields key value = fields ++ [(key, value)] := by
  have hall : fields.takeWhile (fun field => ! precedes key field.1) = fields :=
    List.takeWhile_eq_self_iff.mpr fun field hfield => by rw [hlast field hfield]; rfl
  have hnone : fields.dropWhile (fun field => ! precedes key field.1) = [] :=
    List.dropWhile_eq_nil_iff.mpr fun field hfield => by rw [hlast field hfield]; rfl
  rw [setField, if_neg hmem, List.span_eq_takeWhile_dropWhile, hall, hnone]

/-- Fields in their order make an object as they are. -/
theorem InOrder.ofFields_eq (h : InOrder fields) : ofFields fields = fields := by
  induction fields using List.reverseRecOn with
  | nil => rfl
  | append_singleton fields field ih =>
      obtain ⟨hnodup, hsorted⟩ := h
      rw [List.map_append, List.map_singleton, List.nodup_append] at hnodup
      rw [List.map_append, List.map_singleton, List.pairwise_append] at hsorted
      have hfold : ofFields (fields ++ [field]) =
          setField (ofFields fields) field.1 field.2 := by
        rw [ofFields, List.foldl_append]
        rfl
      rw [hfold, ih ⟨hnodup.1, hsorted.1⟩]
      refine setField_of_last (fun hmem => ?_) fun other hother => ?_
      · exact hnodup.2.2 _ hmem field.1 List.mem_cons_self rfl
      · exact hsorted.2.2 _ (List.mem_map_of_mem hother) field.1 List.mem_cons_self

/-- The keys before and behind the place of a new one. -/
theorem map_fst_setField (hmem : key ∉ fields.map Prod.fst) :
    (setField fields key value).map Prod.fst =
      (fields.map Prod.fst).takeWhile (fun other => ! precedes key other) ++
        key :: (fields.map Prod.fst).dropWhile fun other => ! precedes key other := by
  rw [setField, if_neg hmem, List.span_eq_takeWhile_dropWhile, List.takeWhile_map,
    List.dropWhile_map, List.map_append, List.map_cons]
  rfl

theorem map_fst_setField_of_mem (hmem : key ∈ fields.map Prod.fst) :
    (setField fields key value).map Prod.fst = fields.map Prod.fst := by
  rw [setField, if_pos hmem, List.map_map]
  refine List.map_congr_left fun field _ => ?_
  by_cases hfield : field.1 = key <;> simp [hfield]

theorem pairwise_insert {keys : List String}
    (h : keys.Pairwise fun first second => precedes second first = false) :
    (keys.takeWhile (fun other => ! precedes key other) ++
      key :: keys.dropWhile fun other => ! precedes key other).Pairwise
        fun first second => precedes second first = false := by
  have hsplit := List.takeWhile_append_dropWhile (p := fun other => ! precedes key other) (l := keys)
  have hsorted := h
  rw [← hsplit, List.pairwise_append] at h
  obtain ⟨hbefore, hafter, hcross⟩ := h
  have hkey : ∀ first ∈ keys.takeWhile (fun other => ! precedes key other),
      precedes key first = false := fun first hfirst => by
    simpa using List.mem_takeWhile_imp hfirst
  -- the first key behind the place comes after the new one, and so do the others
  have hrest : ∀ second ∈ keys.dropWhile (fun other => ! precedes key other),
      precedes second key = false := by
    cases hdrop : keys.dropWhile fun other => ! precedes key other with
    | nil => exact fun second hsecond => nomatch hsecond
    | cons next rest =>
        have hnext : precedes key next = true := by
          have hnot := List.head_dropWhile_not (fun other => ! precedes key other)
            (List.ne_nil_of_mem (a := next) (by rw [hdrop]; exact List.mem_cons_self))
          simpa [hdrop] using hnot
        intro second hsecond
        rcases List.mem_cons.mp hsecond with rfl | hsecond
        · exact precedes_asymm hnext
        · rw [hdrop, List.pairwise_cons] at hafter
          by_contra hlater
          have hback := precedes_trans (Bool.not_eq_false _ |>.mp hlater) hnext
          rw [hafter.1 second hsecond] at hback
          cases hback
  rw [List.pairwise_append, List.pairwise_cons]
  refine ⟨hbefore, ⟨hrest, hafter⟩, fun first hfirst second hsecond => ?_⟩
  rcases List.mem_cons.mp hsecond with rfl | hsecond
  · exact hkey first hfirst
  · exact hcross first hfirst second hsecond

/-- An object stays in order when a field of it is written. -/
theorem InOrder.setField (h : InOrder fields) : InOrder (setField fields key value) where
  nodup := nodup_setField h.nodup key value
  sorted := by
    by_cases hmem : key ∈ fields.map Prod.fst
    · rw [map_fst_setField_of_mem hmem]
      exact h.sorted
    · rw [map_fst_setField hmem]
      exact pairwise_insert h.sorted

/-! ## Values with the same text -/

mutual

def Held : Json → Prop
  | number (.finite q) => (literalOf q).decimal.value = .finite q
  | array items => HeldItems items
  | object fields => InOrder fields ∧ HeldFields fields
  | _ => True

def HeldItems : List Json → Prop
  | [] => True
  | item :: items => item.Held ∧ HeldItems items

def HeldFields : List (String × Json) → Prop
  | [] => True
  | (_, value) :: fields => value.Held ∧ HeldFields fields

end

theorem ofFields_rereadFields (h : InOrder fields) :
    ofFields (rereadFields fields) = rereadFields fields :=
  InOrder.ofFields_eq (by constructor <;> rw [map_fst_rereadFields]; exacts [h.nodup, h.sorted])

mutual

/-- A value that was written and read has its text again. -/
theorem render_reread (gap depth : Nat) :
    ∀ value : Json, value.Held → render gap depth value.reread = render gap depth value
  | null, _ | boolean _, _ | string _, _ => rfl
  | number .nan, _ | number .infinity, _ | number .negInfinity, _ => rfl
  | number (.finite q), h => by
      rw [Held] at h
      rw [reread, h]
  | array [], _ => rfl
  | array (item :: items), h => by
      rw [Held, HeldItems] at h
      rw [reread, rereadItems, render, render, render_reread gap (depth + 1) item h.1,
        renderItems_reread gap depth items h.2]
  | object [], _ => rfl
  | object ((key, value) :: fields), h => by
      rw [Held, HeldFields] at h
      rw [reread, ofFields_rereadFields h.1, rereadFields, render, render,
        render_reread gap (depth + 1) value h.2.1, renderFields_reread gap depth fields h.2.2]

theorem renderItems_reread (gap depth : Nat) : ∀ items : List Json, HeldItems items →
    renderItems gap depth (rereadItems items) = renderItems gap depth items
  | [], _ => rfl
  | item :: items, h => by
      rw [HeldItems] at h
      rw [rereadItems, renderItems, renderItems, render_reread gap (depth + 1) item h.1,
        renderItems_reread gap depth items h.2]

theorem renderFields_reread (gap depth : Nat) : ∀ fields : List (String × Json),
    HeldFields fields → renderFields gap depth (rereadFields fields) = renderFields gap depth fields
  | [], _ => rfl
  | (key, value) :: fields, h => by
      rw [HeldFields] at h
      rw [rereadFields, renderFields, renderFields, render_reread gap (depth + 1) value h.1,
        renderFields_reread gap depth fields h.2]

end

theorem stringify_reread (gap : Nat) (h : value.Held) :
    stringify gap value.reread = stringify gap value := by
  rw [stringify, stringify, render_reread gap 0 value h]

/-! ## Values that JSON represents -/

mutual

/-- The numbers are finite and doubles, and the fields of an object stand in their order. -/
def Representable : Json → Prop
  | number (.finite q) => IsDouble q
  | number _ => False
  | array items => RepresentableItems items
  | object fields => InOrder fields ∧ RepresentableFields fields
  | _ => True

def RepresentableItems : List Json → Prop
  | [] => True
  | item :: items => item.Representable ∧ RepresentableItems items

def RepresentableFields : List (String × Json) → Prop
  | [] => True
  | (_, value) :: fields => value.Representable ∧ RepresentableFields fields

end

theorem representableItems_iff {items : List Json} :
    RepresentableItems items ↔ ∀ item ∈ items, item.Representable := by
  induction items with
  | nil => simp [RepresentableItems]
  | cons item items ih => simp [RepresentableItems, ih]

theorem representableFields_iff :
    RepresentableFields fields ↔ ∀ field ∈ fields, field.2.Representable := by
  induction fields with
  | nil => simp [RepresentableFields]
  | cons field fields ih => simp [RepresentableFields, ih]

mutual

theorem reread_of_representable : ∀ value : Json, value.Representable → value.reread = value
  | null, _ | boolean _, _ | string _, _ => rfl
  | number (.finite q), h => by
      rw [reread, value_literalOf h]
  | number .nan, h | number .infinity, h | number .negInfinity, h => h.elim
  | array items, h => by
      rw [Representable] at h
      rw [reread, rereadItems_of_representable items h]
  | object fields, h => by
      rw [Representable] at h
      rw [reread, ofFields_rereadFields h.1, rereadFields_of_representable fields h.2]

theorem rereadItems_of_representable : ∀ items : List Json, RepresentableItems items →
    rereadItems items = items
  | [], _ => rfl
  | item :: items, h => by
      rw [RepresentableItems] at h
      rw [rereadItems, reread_of_representable item h.1, rereadItems_of_representable items h.2]

theorem rereadFields_of_representable : ∀ fields : List (String × Json),
    RepresentableFields fields → rereadFields fields = fields
  | [], _ => rfl
  | (key, value) :: fields, h => by
      rw [RepresentableFields] at h
      rw [rereadFields, reread_of_representable value h.1, rereadFields_of_representable fields h.2]

end

/-- What JSON represents is read as it was written. -/
theorem parse_stringify_of_representable (gap : Nat) (h : value.Representable) :
    parse (stringify gap value) = some value := by
  rw [parse_stringify, reread_of_representable value h]

/-- What a field holds, where no key stands twice. -/
theorem fieldOf_eq_some_iff (h : (fields.map Prod.fst).Nodup) :
    fieldOf fields key = some value ↔ (key, value) ∈ fields := by
  induction fields with
  | nil => simp [fieldOf]
  | cons field fields ih =>
      rw [List.map_cons, List.nodup_cons] at h
      rw [fieldOf_cons, List.mem_cons]
      split_ifs with hkey
      · constructor
        · intro heq
          exact .inl (Prod.ext hkey.symm (Option.some.inj heq).symm)
        · rintro (rfl | hmem)
          · rfl
          · exact absurd (List.mem_map_of_mem hmem) (hkey ▸ h.1)
      · rw [ih h.2]
        constructor
        · exact .inr
        · rintro (rfl | hmem)
          · exact absurd rfl hkey
          · exact hmem

/-! ## Texts behind a value -/

/-- Where the text of an object ends can be seen from the text alone. -/
theorem stringify_object_append_injective {gap : Nat} {fields' : List (String × Json)}
    {text text' : List Char}
    (h : render gap 0 (object fields) ++ text = render gap 0 (object fields') ++ text') :
    render gap 0 (object fields) = render gap 0 (object fields') ∧ text = text' := by
  have hreads : ∀ (fields : List (String × Json)) (text : List Char),
      Reads (render gap 0 (object fields) ++ text) (.value (object fields).reread) text := by
    intro fields text
    have hends : Ends [] := fun _ hc => nomatch hc
    have hread := reads_render gap 0 (object fields) hends
    rw [List.append_nil] at hread
    exact hread.append trivial text
  have hsame := hreads fields text
  rw [h] at hsame
  obtain rfl := (hsame.unique (hreads fields' text')).2
  exact ⟨List.append_cancel_right h, rfl⟩

/-! ## Values in conditions and templates -/

/-- `!!value`, of a field that may be missing. -/
def truthy : Option Json → Bool
  | none | some null => false
  | some (boolean value) => value
  | some (number x) => x ≠ .nan ∧ x ≠ .finite 0
  | some (string text) => text ≠ ""
  | some (array _) | some (object _) => true

mutual

/-- `String(value)`; an object has no `toString` of its own. -/
def display : Json → String
  | null => "null"
  | boolean value => if value then "true" else "false"
  | number x => String.ofList x.text
  | string text => text
  | array items => ",".intercalate (displayItems items)
  | object _ => "[object Object]"

def displayItems : List Json → List String
  | [] => []
  | null :: items => "" :: displayItems items
  | item :: items => display item :: displayItems items

end

mutual

/-- A value has a text: an object with a `toString` of its own, which is never a function here,
has none. -/
def convertible : Json → Bool
  | array items => convertibleItems items
  | object fields => "toString" ∉ fields.map Prod.fst
  | _ => true

def convertibleItems : List Json → Bool
  | [] => true
  | item :: items => convertible item && convertibleItems items

end

/-- `String(value)`, `none` where it throws. -/
def toText (value : Json) : Option String := if value.convertible then some value.display else none

/-- `value.key` of a value that is not null. -/
def property : Json → String → Option Json
  | object fields, key => fieldOf fields key
  | _, _ => none

/-- A field in a template. -/
def template (value : Option Json) : String := (value.map display).getD "undefined"

end ThinkLocal.Js.Json
