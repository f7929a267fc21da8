import ThinkLocal.Js.Json

/-!
# The grammar of JSON

What a text is read as, without fuel.  The parser reads a text as a value exactly if the grammar
does, and what is read as a value is read so in front of any other text.
-/

namespace ThinkLocal.Js.Json

/-- What a part of a text is read as. -/
inductive Part
  | value (value : Json)
  | items (items : List Json)
  | field (field : String × Json)
  | fields (fields : List (String × Json))

/-- The start of the text is read as the part, and the last text is left. -/
inductive Reads : List Char → Part → List Char → Prop
  | null {t rest} : skipBlanks t = 'n' :: 'u' :: 'l' :: 'l' :: rest → Reads t (.value null) rest
  | true {t rest} : skipBlanks t = 't' :: 'r' :: 'u' :: 'e' :: rest →
      Reads t (.value (boolean true)) rest
  | false {t rest} : skipBlanks t = 'f' :: 'a' :: 'l' :: 's' :: 'e' :: rest →
      Reads t (.value (boolean false)) rest
  | number {t x rest} : readNumber (skipBlanks t) = some (x, rest) →
      Reads t (.value (number x)) rest
  | string {t t₁ text rest} : skipBlanks t = '"' :: t₁ → readString t₁ = some (text, rest) →
      Reads t (.value (string text)) rest
  | emptyArray {t t₁ rest} : skipBlanks t = '[' :: t₁ → skipBlanks t₁ = ']' :: rest →
      Reads t (.value (array [])) rest
  | array {t t₁ t₂ rest item items} : skipBlanks t = '[' :: t₁ → Reads t₁ (.value item) t₂ →
      Reads t₂ (.items items) rest → Reads t (.value (array (item :: items))) rest
  | noItems {t rest} : skipBlanks t = ']' :: rest → Reads t (.items []) rest
  | items {t t₁ t₂ rest item items} : skipBlanks t = ',' :: t₁ → Reads t₁ (.value item) t₂ →
      Reads t₂ (.items items) rest → Reads t (.items (item :: items)) rest
  | emptyObject {t t₁ rest} : skipBlanks t = '\x7b' :: t₁ → skipBlanks t₁ = '\x7d' :: rest →
      Reads t (.value (object [])) rest
  | object {t t₁ t₂ rest field fields} : skipBlanks t = '\x7b' :: t₁ → Reads t₁ (.field field) t₂ →
      Reads t₂ (.fields fields) rest → Reads t (.value (object (ofFields (field :: fields)))) rest
  | field {t t₁ t₂ t₃ rest key value} : skipBlanks t = '"' :: t₁ → readString t₁ = some (key, t₂) →
      skipBlanks t₂ = ':' :: t₃ → Reads t₃ (.value value) rest → Reads t (.field (key, value)) rest
  | noFields {t rest} : skipBlanks t = '\x7d' :: rest → Reads t (.fields []) rest
  | fields {t t₁ t₂ rest field fields} : skipBlanks t = ',' :: t₁ → Reads t₁ (.field field) t₂ →
      Reads t₂ (.fields fields) rest → Reads t (.fields (field :: fields)) rest

variable {t t₁ rest : List Char} {p : Part} {fuel : Nat}

/-! ## The parser follows the grammar -/

/-- The parser's answer for a part. -/
def Parsed (fuel : Nat) (t : List Char) (rest : List Char) : Part → Prop
  | .value value => parseValue fuel t = some (value, rest)
  | .items items => parseItems fuel t = some (items, rest)
  | .field field => parseField fuel t = some (field, rest)
  | .fields fields => parseFields fuel t = some (fields, rest)

section

variable (ih : ∀ {t rest : List Char} {p : Part}, Parsed fuel t rest p → Reads t p rest)
include ih

theorem reads_of_parseItems {items : List Json} (h : parseItems (fuel + 1) t = some (items, rest)) :
    Reads t (.items items) rest := by
  rw [parseItems] at h
  split at h
  · next hstart =>
      obtain ⟨rfl, rfl⟩ := Prod.mk.inj (Option.some.inj h)
      exact .noItems hstart
  · next hstart =>
      obtain ⟨⟨item, t₂⟩, hitem, h⟩ := Option.bind_eq_some_iff.mp h
      obtain ⟨⟨items', rest'⟩, hitems, heq⟩ := Option.map_eq_some_iff.mp h
      obtain ⟨rfl, rfl⟩ := Prod.mk.inj heq
      exact .items hstart (ih (p := .value item) hitem) (ih (p := .items items') hitems)
  · cases h

theorem reads_of_parseField {field : String × Json}
    (h : parseField (fuel + 1) t = some (field, rest)) : Reads t (.field field) rest := by
  rw [parseField] at h
  split at h
  · next hstart =>
      obtain ⟨⟨key, t₂⟩, hread, h⟩ := Option.bind_eq_some_iff.mp h
      dsimp only at h
      split at h
      · next hcolon =>
          obtain ⟨⟨value, rest'⟩, hvalue, heq⟩ := Option.map_eq_some_iff.mp h
          obtain ⟨rfl, rfl⟩ := Prod.mk.inj heq
          exact .field hstart hread hcolon (ih (p := .value value) hvalue)
      · cases h
  · cases h

theorem reads_of_parseFields {fields : List (String × Json)}
    (h : parseFields (fuel + 1) t = some (fields, rest)) : Reads t (.fields fields) rest := by
  rw [parseFields] at h
  split at h
  · next hstart =>
      obtain ⟨rfl, rfl⟩ := Prod.mk.inj (Option.some.inj h)
      exact .noFields hstart
  · next hstart =>
      obtain ⟨⟨field, t₂⟩, hfield, h⟩ := Option.bind_eq_some_iff.mp h
      obtain ⟨⟨fields', rest'⟩, hfields, heq⟩ := Option.map_eq_some_iff.mp h
      obtain ⟨rfl, rfl⟩ := Prod.mk.inj heq
      exact .fields hstart (ih (p := .field field) hfield) (ih (p := .fields fields') hfields)
  · cases h

theorem reads_of_parseValue {value : Json} (h : parseValue (fuel + 1) t = some (value, rest)) :
    Reads t (.value value) rest := by
  rw [parseValue] at h
  split at h
  · next t₁ hstart =>
      obtain ⟨⟨text, rest'⟩, hread, heq⟩ := Option.map_eq_some_iff.mp h
      obtain ⟨rfl, rfl⟩ := Prod.mk.inj heq
      exact .string hstart hread
  · next t₁ hstart =>
      split at h
      · next hempty =>
          obtain ⟨rfl, rfl⟩ := Prod.mk.inj (Option.some.inj h)
          exact .emptyArray hstart hempty
      · obtain ⟨⟨item, t₂⟩, hitem, h⟩ := Option.bind_eq_some_iff.mp h
        obtain ⟨⟨items, rest'⟩, hitems, heq⟩ := Option.map_eq_some_iff.mp h
        obtain ⟨rfl, rfl⟩ := Prod.mk.inj heq
        exact .array hstart (ih (p := .value item) hitem) (ih (p := .items items) hitems)
  · next t₁ hstart =>
      split at h
      · next hempty =>
          obtain ⟨rfl, rfl⟩ := Prod.mk.inj (Option.some.inj h)
          exact .emptyObject hstart hempty
      · obtain ⟨⟨field, t₂⟩, hfield, h⟩ := Option.bind_eq_some_iff.mp h
        obtain ⟨⟨fields, rest'⟩, hfields, heq⟩ := Option.map_eq_some_iff.mp h
        obtain ⟨rfl, rfl⟩ := Prod.mk.inj heq
        exact .object hstart (ih (p := .field field) hfield) (ih (p := .fields fields) hfields)
  -- the three words
  · next hstart =>
      obtain ⟨rfl, rfl⟩ := Prod.mk.inj (Option.some.inj h)
      exact .null hstart
  · next hstart =>
      obtain ⟨rfl, rfl⟩ := Prod.mk.inj (Option.some.inj h)
      exact .true hstart
  · next hstart =>
      obtain ⟨rfl, rfl⟩ := Prod.mk.inj (Option.some.inj h)
      exact .false hstart
  · obtain ⟨⟨x, rest'⟩, hread, heq⟩ := Option.map_eq_some_iff.mp h
    obtain ⟨rfl, rfl⟩ := Prod.mk.inj heq
    exact .number hread

end

theorem reads_of_parsed (h : Parsed fuel t rest p) : Reads t p rest := by
  induction fuel generalizing t rest p with
  | zero => cases p <;> cases h
  | succ fuel ih =>
      cases p with
      | value value => exact reads_of_parseValue ih h
      | items items => exact reads_of_parseItems ih h
      | field field => exact reads_of_parseField ih h
      | fields fields => exact reads_of_parseFields ih h

theorem length_skipBlanks_le (t : List Char) : (skipBlanks t).length ≤ t.length :=
  (List.dropWhile_suffix _).length_le

theorem consUnit_eq_some {unit : Option Nat} {tail : Option (List Nat × List Char)}
    {units : List Nat} (h : consUnit unit tail = some (units, rest)) :
    ∃ u units', unit = some u ∧ tail = some (units', rest) ∧ units = u :: units' := by
  obtain ⟨u, hu, h⟩ := Option.bind_eq_some_iff.mp h
  obtain ⟨⟨units', rest'⟩, htail, heq⟩ := Option.map_eq_some_iff.mp h
  obtain ⟨rfl, rfl⟩ := Prod.mk.inj heq
  exact ⟨u, units', hu, htail, rfl⟩

theorem length_of_readUnits {units : List Nat} (h : readUnits t = some (units, rest)) :
    rest.length < t.length := by
  induction t using readUnits.induct generalizing units with
  | case1 => cases h
  | case2 t =>
      obtain ⟨-, rfl⟩ := Prod.mk.inj (Option.some.inj h)
      exact Nat.lt_succ_self _
  | case3 a b c d t ih =>
      obtain ⟨-, units', -, htail, -⟩ := consUnit_eq_some h
      have hlt := ih htail
      simp only [List.length_cons]
      omega
  | case4 c t hno ih =>
      rw [readUnits.eq_4 _ _ hno] at h
      obtain ⟨-, units', -, htail, -⟩ := consUnit_eq_some h
      have hlt := ih htail
      simp only [List.length_cons]
      omega
  | case5 c t hquote hhex hescape ih =>
      rw [readUnits.eq_5 _ _ hquote hhex hescape] at h
      obtain ⟨-, units', -, htail, -⟩ := consUnit_eq_some h
      have hlt := ih htail
      simp only [List.length_cons]
      omega

/-- A number is a run of its characters, which is not empty. -/
theorem readNumber_eq_some {x : Number} (h : readNumber t = some (x, rest)) :
    ∃ c run, isNumberChar c = true ∧ t = c :: run ++ rest ∧
      (∀ c' ∈ run, isNumberChar c' = true) ∧ ∀ c' ∈ rest.head?, isNumberChar c' = false := by
  obtain ⟨l, hl, heq⟩ := Option.map_eq_some_iff.mp h
  obtain ⟨-, rfl⟩ := Prod.mk.inj heq
  have hall : ∀ c ∈ t.takeWhile isNumberChar, isNumberChar c = true := fun _ =>
    List.mem_takeWhile_imp
  cases hrun : t.takeWhile isNumberChar with
  | nil =>
      rw [hrun] at hl
      cases hl
  | cons c run =>
      rw [hrun] at hall
      refine ⟨c, run, hall c List.mem_cons_self, ?_,
        fun c' hc' => hall c' (List.mem_cons_of_mem c hc'), ?_⟩
      · rw [← hrun, List.takeWhile_append_dropWhile]
      · intro c' hc'
        have := List.head?_dropWhile_not isNumberChar t
        rw [Option.mem_def.mp hc'] at this
        simpa using this

theorem length_of_readNumber {x : Number} (h : readNumber t = some (x, rest)) :
    rest.length < t.length := by
  obtain ⟨c, run, -, rfl, -, -⟩ := readNumber_eq_some h
  simp only [List.length_append, List.length_cons]
  omega

theorem length_of_readString {text : String} (h : readString t = some (text, rest)) :
    rest.length < t.length := by
  obtain ⟨⟨units, rest⟩, hunits, heq⟩ := Option.map_eq_some_iff.mp h
  obtain ⟨-, rfl⟩ := Prod.mk.inj heq
  exact length_of_readUnits hunits

/-- A part takes at least one character. -/
theorem Reads.length_lt (h : Reads t p rest) : rest.length < t.length := by
  have hskip : ∀ {t t' : List Char} {c : Char}, skipBlanks t = c :: t' → t'.length < t.length := by
    intro t t' c h
    have hle := length_skipBlanks_le t
    rw [h, List.length_cons] at hle
    omega
  induction h with
  | null h | true h | false h =>
      have hlt := hskip h
      simp only [List.length_cons] at hlt
      omega
  | @number t x rest h =>
      have hle := length_skipBlanks_le t
      have hlt := length_of_readNumber h
      omega
  | string h hs =>
      have hlt := hskip h
      have hlt' := length_of_readString hs
      omega
  | emptyArray h h' | emptyObject h h' =>
      have hlt := hskip h
      have hlt' := hskip h'
      omega
  | array h _ _ ih ih' | items h _ _ ih ih' | object h _ _ ih ih' | fields h _ _ ih ih' =>
      have hlt := hskip h
      omega
  | noItems h | noFields h => exact hskip h
  | field h hs hcolon _ ih =>
      have hlt := hskip h
      have hlt' := length_of_readString hs
      have hlt'' := hskip hcolon
      omega

/-! ## The parser reads all that the grammar does -/

theorem readNumber_cons {c : Char} (h : isNumberChar c = false) : readNumber (c :: t) = none := by
  rw [readNumber, List.takeWhile_cons_of_neg (by simp [h])]
  rfl

/-- A value does not start with a closing bracket. -/
theorem Reads.ne_bracket {value : Json} (h : Reads t (.value value) rest) :
    skipBlanks t ≠ ']' :: t₁ ∧ skipBlanks t ≠ '\x7d' :: t₁ := by
  cases h with
  | number h =>
      constructor
      · intro heq
        rw [heq, readNumber_cons rfl] at h
        cases h
      · intro heq
        rw [heq, readNumber_cons rfl] at h
        cases h
  | null h | true h | false h | string h _ | emptyArray h _ | array h _ _ | emptyObject h _
  | object h _ _ => rw [h]; simp

theorem Reads.ne_brace {field : String × Json} (h : Reads t (.field field) rest) :
    skipBlanks t ≠ '\x7d' :: t₁ := by
  cases h with
  | field h _ _ _ => rw [h]; simp

section

variable {t₂ : List Char} {item : Json} {items : List Json} {field : String × Json}
variable {fields : List (String × Json)}

theorem parseValue_number {x : Number} (h : readNumber (skipBlanks t) = some (x, rest)) :
    parseValue (fuel + 1) t = some (number x, rest) := by
  obtain ⟨c, run, hc, happend, -, -⟩ := readNumber_eq_some h
  rw [parseValue]
  split
  all_goals first
    | next heq =>
        rw [heq] at happend
        obtain ⟨rfl, -⟩ := List.cons.inj happend
        cases hc
    | rw [h]
      rfl

theorem parseValue_array (h : skipBlanks t = '[' :: t₁) (hne : ∀ t', skipBlanks t₁ ≠ ']' :: t')
    (hitem : parseValue fuel t₁ = some (item, t₂)) (hitems : parseItems fuel t₂ = some (items, rest)) :
    parseValue (fuel + 1) t = some (array (item :: items), rest) := by
  rw [parseValue, h]
  -- `hne` excludes the branch of the empty list
  simp only
  rw [hitem, Option.bind_some]
  dsimp only
  rw [hitems]
  rfl

theorem parseValue_object (h : skipBlanks t = '\x7b' :: t₁)
    (hne : ∀ t', skipBlanks t₁ ≠ '\x7d' :: t') (hfield : parseField fuel t₁ = some (field, t₂))
    (hfields : parseFields fuel t₂ = some (fields, rest)) :
    parseValue (fuel + 1) t = some (object (ofFields (field :: fields)), rest) := by
  rw [parseValue, h]
  -- `hne` excludes the branch of the empty list
  simp only
  rw [hfield, Option.bind_some]
  dsimp only
  rw [hfields]
  rfl

theorem parseItems_cons (h : skipBlanks t = ',' :: t₁) (hitem : parseValue fuel t₁ = some (item, t₂))
    (hitems : parseItems fuel t₂ = some (items, rest)) :
    parseItems (fuel + 1) t = some (item :: items, rest) := by
  rw [parseItems, h]
  simp only
  rw [hitem, Option.bind_some]
  dsimp only
  rw [hitems]
  rfl

theorem parseField_eq {t₃ : List Char} {key : String} {value : Json} (h : skipBlanks t = '"' :: t₁)
    (hkey : readString t₁ = some (key, t₂)) (hcolon : skipBlanks t₂ = ':' :: t₃)
    (hvalue : parseValue fuel t₃ = some (value, rest)) :
    parseField (fuel + 1) t = some ((key, value), rest) := by
  rw [parseField, h]
  simp only
  rw [hkey, Option.bind_some]
  dsimp only
  rw [hcolon]
  simp only [hvalue, Option.map_some]

theorem parseFields_cons (h : skipBlanks t = ',' :: t₁)
    (hfield : parseField fuel t₁ = some (field, t₂))
    (hfields : parseFields fuel t₂ = some (fields, rest)) :
    parseFields (fuel + 1) t = some (field :: fields, rest) := by
  rw [parseFields, h]
  simp only
  rw [hfield, Option.bind_some]
  dsimp only
  rw [hfields]
  rfl

end

/-- With enough fuel the parser follows a derivation; each part that is read inside starts behind a
character of the text. -/
theorem Reads.parsed (h : Reads t p rest) (hfuel : t.length < fuel) : Parsed fuel t rest p := by
  have hskip : ∀ {t t' : List Char} {c : Char} {fuel : Nat}, t.length < fuel + 1 →
      skipBlanks t = c :: t' → t'.length < fuel := by
    intro t t' c fuel hfuel h
    have hle := length_skipBlanks_le t
    rw [h, List.length_cons] at hle
    omega
  induction h generalizing fuel with
  | null h | true h | false h =>
      obtain ⟨fuel, rfl⟩ : ∃ n, fuel = n + 1 := ⟨fuel - 1, by omega⟩
      rw [Parsed, parseValue, h]
      rfl
  | number h =>
      obtain ⟨fuel, rfl⟩ : ∃ n, fuel = n + 1 := ⟨fuel - 1, by omega⟩
      exact parseValue_number h
  | string h hs =>
      obtain ⟨fuel, rfl⟩ : ∃ n, fuel = n + 1 := ⟨fuel - 1, by omega⟩
      rw [Parsed, parseValue, h]
      simp only [hs, Option.map_some]
  | emptyArray h h' | emptyObject h h' =>
      obtain ⟨fuel, rfl⟩ : ∃ n, fuel = n + 1 := ⟨fuel - 1, by omega⟩
      rw [Parsed, parseValue, h]
      simp only [h']
  | array h hitem _ ih ih' =>
      obtain ⟨fuel, rfl⟩ : ∃ n, fuel = n + 1 := ⟨fuel - 1, by omega⟩
      have hlt := hskip hfuel h
      exact parseValue_array h (fun _ => hitem.ne_bracket.1) (ih hlt) (ih' (hitem.length_lt.trans hlt))
  | noItems h | noFields h =>
      obtain ⟨fuel, rfl⟩ : ∃ n, fuel = n + 1 := ⟨fuel - 1, by omega⟩
      simp only [Parsed, parseItems, parseFields, h]
  | items h hitem _ ih ih' =>
      obtain ⟨fuel, rfl⟩ : ∃ n, fuel = n + 1 := ⟨fuel - 1, by omega⟩
      have hlt := hskip hfuel h
      exact parseItems_cons h (ih hlt) (ih' (hitem.length_lt.trans hlt))
  | object h hfield _ ih ih' =>
      obtain ⟨fuel, rfl⟩ : ∃ n, fuel = n + 1 := ⟨fuel - 1, by omega⟩
      have hlt := hskip hfuel h
      exact parseValue_object h (fun _ => hfield.ne_brace) (ih hlt) (ih' (hfield.length_lt.trans hlt))
  | field h hs hcolon _ ih =>
      obtain ⟨fuel, rfl⟩ : ∃ n, fuel = n + 1 := ⟨fuel - 1, by omega⟩
      have hlt := hskip hfuel h
      have hlt' := length_of_readString hs
      exact parseField_eq h hs hcolon (ih (hskip (by omega) hcolon))
  | fields h hfield _ ih ih' =>
      obtain ⟨fuel, rfl⟩ : ∃ n, fuel = n + 1 := ⟨fuel - 1, by omega⟩
      have hlt := hskip hfuel h
      exact parseFields_cons h (ih hlt) (ih' (hfield.length_lt.trans hlt))

/-- A text is parsed as the value that the grammar reads it as, up to blanks. -/
theorem parse_eq_some_iff {text : String} {value : Json} :
    parse text = some value ↔
      ∃ rest, Reads text.toList (.value value) rest ∧ skipBlanks rest = [] := by
  constructor
  · intro h
    obtain ⟨⟨value', rest⟩, hparse, h⟩ := Option.bind_eq_some_iff.mp h
    dsimp only at h
    split_ifs at h with hrest
    obtain rfl := Option.some.inj h
    exact ⟨rest, reads_of_parsed (p := .value value') hparse, hrest⟩
  · rintro ⟨rest, hreads, hrest⟩
    have hparsed : parseValue (text.toList.length + 1) text.toList = some (value, rest) :=
      hreads.parsed (Nat.lt_succ_self _)
    rw [parse, hparsed, Option.bind_some]
    exact if_pos hrest

/-! ## Texts in front of other texts -/

theorem skipBlanks_append {c : Char} (h : skipBlanks t = c :: t₁) (q : List Char) :
    skipBlanks (t ++ q) = c :: (t₁ ++ q) := by
  rw [skipBlanks, List.dropWhile_append]
  change skipBlanks t = _ at h
  change (if (skipBlanks t).isEmpty then _ else skipBlanks t ++ q) = _
  rw [h]
  rfl

theorem readUnits_append {units : List Nat} (h : readUnits t = some (units, rest))
    (q : List Char) : readUnits (t ++ q) = some (units, rest ++ q) := by
  induction t using readUnits.induct generalizing units with
  | case1 => cases h
  | case2 t =>
      obtain ⟨rfl, rfl⟩ := Prod.mk.inj (Option.some.inj h)
      rfl
  | case3 a b c d t ih =>
      obtain ⟨u, units', hu, htail, rfl⟩ := consUnit_eq_some h
      change consUnit (hexUnit a b c d) (readUnits (t ++ q)) = _
      rw [ih htail, hu]
      rfl
  | case4 c t hno ih =>
      rw [readUnits.eq_4 _ _ hno] at h
      obtain ⟨u, units', hu, htail, rfl⟩ := consUnit_eq_some h
      -- an escape by number has no short form
      have hc : c ≠ 'u' := by
        rintro rfl
        cases hu
      rw [List.cons_append, List.cons_append,
        readUnits.eq_4 _ _ fun _ _ _ _ _ heq _ => hc heq, ih htail, hu]
      rfl
  | case5 c t hquote hhex hescape ih =>
      rw [readUnits.eq_5 _ _ hquote hhex hescape] at h
      obtain ⟨u, units', hu, htail, rfl⟩ := consUnit_eq_some h
      have hc : c ≠ '\\' := by
        rintro rfl
        cases hu
      rw [List.cons_append, readUnits.eq_5 _ _ hquote (fun _ _ _ _ _ heq _ => hc heq)
        (fun _ _ heq _ => hc heq), ih htail, hu]
      rfl

theorem readString_append {text : String} (h : readString t = some (text, rest))
    (q : List Char) : readString (t ++ q) = some (text, rest ++ q) := by
  obtain ⟨⟨units, rest⟩, hunits, heq⟩ := Option.map_eq_some_iff.mp h
  obtain ⟨rfl, rfl⟩ := Prod.mk.inj heq
  rw [readString, readUnits_append hunits q]
  rfl

/-- A run of the characters of a number is read as a whole. -/
theorem readNumber_run {run : List Char} (hrun : ∀ c ∈ run, isNumberChar c = true)
    (hrest : ∀ c ∈ rest.head?, isNumberChar c = false) :
    readNumber (run ++ rest) = (readLiteral run).map fun l => (l.decimal.value, rest) := by
  rw [readNumber, List.takeWhile_append_of_pos hrun, List.dropWhile_append_of_pos hrun]
  cases rest with
  | nil => simp
  | cons c rest =>
      have hc : isNumberChar c = false := hrest c rfl
      simp [hc]

theorem readNumber_append {x : Number} (h : readNumber t = some (x, rest)) (hne : rest ≠ [])
    (q : List Char) : readNumber (t ++ q) = some (x, rest ++ q) := by
  obtain ⟨c, run, hc, rfl, hrun, hrest⟩ := readNumber_eq_some h
  have hall : ∀ c' ∈ c :: run, isNumberChar c' = true := by
    intro c' hc'
    rcases List.mem_cons.mp hc' with rfl | hc'
    · exact hc
    · exact hrun c' hc'
  rw [readNumber_run hall hrest] at h
  obtain ⟨l, hl, heq⟩ := Option.map_eq_some_iff.mp h
  obtain ⟨rfl, -⟩ := Prod.mk.inj heq
  rw [List.append_assoc, readNumber_run hall (by rwa [List.head?_append_of_ne_nil _ hne]), hl]
  rfl

/-- A number at the end of a text may go on behind it. -/
def Closed (rest : List Char) : Part → Prop
  | .value (number _) | .field (_, number _) => rest ≠ []
  | _ => True

/-- What follows an item or a field is not empty. -/
theorem Reads.ne_nil (h : Reads t p rest) : t ≠ [] := by
  rintro rfl
  exact absurd h.length_lt (Nat.not_lt_zero _)

theorem closed_of_ne_nil (h : rest ≠ []) : Closed rest p := by
  unfold Closed
  split
  · exact h
  · exact h
  · trivial

/-- What is read at the start of a text is read at the start of every longer one. -/
theorem Reads.append (h : Reads t p rest) (hclosed : Closed rest p) (q : List Char) :
    Reads (t ++ q) p (rest ++ q) := by
  induction h with
  | null h => exact .null (skipBlanks_append h q)
  | true h => exact .true (skipBlanks_append h q)
  | false h => exact .false (skipBlanks_append h q)
  | @number t x rest h =>
      obtain ⟨c, run, -, happend, -, -⟩ := readNumber_eq_some h
      refine .number ?_
      -- a number is the only value that a longer text could continue
      have hskip : skipBlanks (t ++ q) = skipBlanks t ++ q := by
        rw [skipBlanks_append happend q, happend]
        rfl
      rw [hskip]
      exact readNumber_append h hclosed q
  | string h hs => exact .string (skipBlanks_append h q) (readString_append hs q)
  | emptyArray h h' => exact .emptyArray (skipBlanks_append h q) (skipBlanks_append h' q)
  | array h _ hitems ih ih' =>
      exact .array (skipBlanks_append h q) (ih (closed_of_ne_nil hitems.ne_nil)) (ih' trivial)
  | noItems h => exact .noItems (skipBlanks_append h q)
  | items h _ hitems ih ih' =>
      exact .items (skipBlanks_append h q) (ih (closed_of_ne_nil hitems.ne_nil)) (ih' trivial)
  | emptyObject h h' => exact .emptyObject (skipBlanks_append h q) (skipBlanks_append h' q)
  | object h _ hfields ih ih' =>
      exact .object (skipBlanks_append h q) (ih (closed_of_ne_nil hfields.ne_nil)) (ih' trivial)
  | @field t t₁ t₂ t₃ rest key value h hs hcolon _ ih =>
      have hvalue : Closed rest (.value value) := by cases value <;> exact hclosed
      exact .field (skipBlanks_append h q) (readString_append hs q) (skipBlanks_append hcolon q)
        (ih hvalue)
  | noFields h => exact .noFields (skipBlanks_append h q)
  | fields h _ hfields ih ih' =>
      exact .fields (skipBlanks_append h q) (ih (closed_of_ne_nil hfields.ne_nil)) (ih' trivial)

end ThinkLocal.Js.Json
