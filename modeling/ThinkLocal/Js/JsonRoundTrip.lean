import ThinkLocal.Js.JsonGrammar

/-!
# JSON texts that are written

What `JSON.stringify` writes is read back as the same value, up to the rounding of numbers; a text
of an array that is cut off is not read at all; and what a field of an object is after that.
-/

namespace ThinkLocal.Js.Json

open Data (jsonChar hexDigit)

variable {t rest : List Char} {p : Part}

/-! ## What is written is read back -/

mutual

/-- The value that the text of a value is read as: numbers are rounded, and those without a text are
`null`. -/
def reread : Json → Json
  | null => null
  | boolean value => boolean value
  | number (.finite q) => number (literalOf q).decimal.value
  | number _ => null
  | string text => string text
  | array items => array (rereadItems items)
  | object fields => object (ofFields (rereadFields fields))

def rereadItems : List Json → List Json
  | [] => []
  | item :: items => reread item :: rereadItems items

def rereadFields : List (String × Json) → List (String × Json)
  | [] => []
  | (key, value) :: fields => (key, reread value) :: rereadFields fields

end

theorem rereadItems_eq_map (items : List Json) : rereadItems items = items.map reread := by
  induction items with
  | nil => rfl
  | cons item items ih => rw [rereadItems, ih, List.map_cons]

theorem toNat_not_surrogate (c : Char) : c.toNat < 0xd800 ∨ 0xe000 ≤ c.toNat := by
  rcases c.valid with h | ⟨h, -⟩
  · exact .inl h
  · exact .inr h

theorem decodeUnits_map_toNat (chars : List Char) : decodeUnits (chars.map Char.toNat) = chars := by
  have hunit : ∀ c : Char, unitChar c.toNat = c := by
    intro c
    have hvalid : ¬ isSurrogate c.toNat = true := by
      simp only [isSurrogate, decide_eq_true_eq]
      rcases toNat_not_surrogate c with h | h <;> omega
    rw [unitChar, if_neg hvalid, Char.ofNat_toNat]
  induction chars with
  | nil => rfl
  | cons c rest ih =>
      cases rest with
      | nil => rw [List.map_singleton, decodeUnits, hunit]
      | cons d rest =>
          have hpair : ¬ ((0xd800 ≤ c.toNat ∧ c.toNat < 0xdc00) ∧
              0xdc00 ≤ d.toNat ∧ d.toNat < 0xe000) := by
            rcases toNat_not_surrogate c with h | h <;> omega
          rw [List.map_cons, List.map_cons, decodeUnits, if_neg hpair, hunit, ← List.map_cons, ih]

theorem hexValue_hexDigit : ∀ n < 16, hexValue (hexDigit n) = some n := by decide

/-- An escaped character is read as one unit. -/
theorem readUnits_jsonChar (c : Char) (t : List Char) :
    readUnits (jsonChar c ++ t) = consUnit (some c.toNat) (readUnits t) := by
  unfold jsonChar
  split_ifs with hquote hslash h8 h9 h10 h12 h13 hcontrol
  · rw [hquote]
    rfl
  · rw [hslash]
    rfl
  · rw [h8]
    rfl
  · rw [h9]
    rfl
  · rw [h10]
    rfl
  · rw [h12]
    rfl
  · rw [h13]
    rfl
  · -- the other control characters have two digits behind two zeros
    have hhigh := hexValue_hexDigit (c.toNat / 16) (by omega)
    have hlow := hexValue_hexDigit (c.toNat % 16) (by omega)
    have hunit : hexUnit '0' '0' (hexDigit (c.toNat / 16)) (hexDigit (c.toNat % 16)) =
        some c.toNat := by
      have hzero : hexValue '0' = some 0 := rfl
      simp only [hexUnit, hzero, hhigh, hlow, Option.bind_eq_bind, Option.bind_some]
      exact congrArg some (by omega)
    rw [← hunit]
    rfl
  · have hplain : plainUnit c = some c.toNat := if_neg (by simp [hcontrol, hslash])
    rw [List.singleton_append, readUnits.eq_5 _ _ (fun heq => hquote heq)
      (fun _ _ _ _ _ heq _ => hslash heq) (fun _ _ heq _ => hslash heq), hplain]

theorem readString_stringText (text : String) (t : List Char) :
    readString (text.toList.flatMap jsonChar ++ '"' :: t) = some (text, t) := by
  have hunits : ∀ chars : List Char,
      readUnits (chars.flatMap jsonChar ++ '"' :: t) = some (chars.map Char.toNat, t) := by
    intro chars
    induction chars with
    | nil => rfl
    | cons c rest ih =>
        rw [List.flatMap_cons, List.append_assoc, readUnits_jsonChar, ih]
        rfl
  rw [readString, hunits, Option.map_some]
  dsimp only
  rw [decodeUnits_map_toNat, String.ofList_toList]

theorem isBlank_of_mem_lineBreak {gap depth : Nat} {c : Char} (h : c ∈ lineBreak gap depth) :
    isBlank c = true := by
  unfold lineBreak at h
  split at h
  · cases h
  · rcases List.mem_cons.mp h with rfl | h
    · rfl
    · obtain rfl := (List.mem_replicate.mp h).2
      rfl

/-- A line break is skipped. -/
theorem skipBlanks_lineBreak (gap depth : Nat) (t : List Char) :
    skipBlanks (lineBreak gap depth ++ t) = skipBlanks t :=
  List.dropWhile_append_of_pos fun _ => isBlank_of_mem_lineBreak

/-- Reading starts behind blanks. -/
theorem Reads.of_skipBlanks {t' : List Char} (h : Reads t p rest)
    (heq : skipBlanks t' = skipBlanks t) : Reads t' p rest := by
  cases h with
  | null h => exact .null (heq.trans h)
  | true h => exact .true (heq.trans h)
  | false h => exact .false (heq.trans h)
  | number h => exact .number (by rwa [heq])
  | string h hs => exact .string (heq.trans h) hs
  | emptyArray h h' => exact .emptyArray (heq.trans h) h'
  | array h h' h'' => exact .array (heq.trans h) h' h''
  | noItems h => exact .noItems (heq.trans h)
  | items h h' h'' => exact .items (heq.trans h) h' h''
  | emptyObject h h' => exact .emptyObject (heq.trans h) h'
  | object h h' h'' => exact .object (heq.trans h) h' h''
  | field h hs h' h'' => exact .field (heq.trans h) hs h' h''
  | noFields h => exact .noFields (heq.trans h)
  | fields h h' h'' => exact .fields (heq.trans h) h' h''

theorem Reads.behind (gap depth : Nat) (h : Reads t p rest) :
    Reads (lineBreak gap depth ++ t) p rest :=
  h.of_skipBlanks (skipBlanks_lineBreak gap depth t)

theorem isNumberChar_of_isDigit {c : Char} (h : c.isDigit = true) : isNumberChar c = true := by
  simp [isNumberChar, h]

theorem isNumberChar_of_mem_text {l : Literal} (h : l.Valid) :
    ∀ c ∈ l.text, isNumberChar c = true := by
  have hfraction : ∀ c ∈ Literal.fractionText l.fraction, isNumberChar c = true := by
    intro c hc
    unfold Literal.fractionText at hc
    split at hc
    · cases hc
    · rcases List.mem_cons.mp hc with rfl | hc
      · rfl
      · exact isNumberChar_of_isDigit (h.fraction_digits c hc)
  have hexponent : ∀ c ∈ Literal.exponentText l.exponent, isNumberChar c = true := by
    intro c hc
    cases he : l.exponent with
    | none =>
        rw [he] at hc
        cases hc
    | some e =>
        rw [he] at hc
        rcases List.mem_cons.mp hc with rfl | hc
        · rfl
        · rcases List.mem_cons.mp hc with rfl | hc
          · cases e.1 <;> rfl
          · exact isNumberChar_of_isDigit (h.exponent_digits e he c hc)
  -- the digits, the fraction and the exponent, behind which a sign is the only thing left
  have hunsigned : ∀ c ∈ l.whole ++
      (Literal.fractionText l.fraction ++ Literal.exponentText l.exponent),
      isNumberChar c = true := by
    intro c hc
    rcases List.mem_append.mp hc with hc | hc
    · exact isNumberChar_of_isDigit (h.whole_digits c hc)
    · rcases List.mem_append.mp hc with hc | hc
      · exact hfraction c hc
      · exact hexponent c hc
  intro c hc
  unfold Literal.text at hc
  dsimp only at hc
  split at hc
  · rcases List.mem_cons.mp hc with rfl | hc
    · rfl
    · exact hunsigned c hc
  · exact hunsigned c hc

/-- A text that does not go on with a character of a number. -/
def Ends (t : List Char) : Prop := ∀ c ∈ t.head?, isNumberChar c = false

theorem ends_cons {c : Char} (h : isNumberChar c = false) : Ends (c :: t) := by
  intro c' hc'
  obtain rfl := Option.some.inj hc'
  exact h

theorem ends_lineBreak (gap depth : Nat) (h : Ends t) : Ends (lineBreak gap depth ++ t) := by
  unfold lineBreak
  split
  · exact h
  · exact ends_cons rfl

theorem ends_renderItems (gap depth : Nat) (items : List Json) :
    Ends (renderItems gap depth items ++ t) := by
  cases items with
  | nil =>
      rw [renderItems, List.append_assoc]
      exact ends_lineBreak gap depth (ends_cons rfl)
  | cons item items => exact ends_cons rfl

theorem ends_renderFields (gap depth : Nat) (fields : List (String × Json)) :
    Ends (renderFields gap depth fields ++ t) := by
  cases fields with
  | nil =>
      rw [renderFields, List.append_assoc]
      exact ends_lineBreak gap depth (ends_cons rfl)
  | cons field fields => exact ends_cons rfl

/-- A field is read back if its value is. -/
theorem reads_field (gap : Nat) {key : String} {value : Json} (h : Reads t (.value value) rest) :
    Reads (stringText key ++ (colon gap ++ t)) (.field (key, value)) rest := by
  have hcolon : ∃ t', skipBlanks (colon gap ++ t) = ':' :: t' ∧ skipBlanks t' = skipBlanks t := by
    unfold colon
    split
    · exact ⟨t, rfl, rfl⟩
    · exact ⟨' ' :: t, rfl, rfl⟩
  obtain ⟨t', hskip, hsame⟩ := hcolon
  refine .field ?_ (readString_stringText key _) hskip (h.of_skipBlanks hsame)
  rw [stringText, List.cons_append, List.append_assoc]
  rfl

theorem reads_number (q : ℚ) (ht : Ends t) :
    Reads ((literalOf q).text ++ t) (.value (number (literalOf q).decimal.value)) t := by
  have hvalid := valid_literalOf q
  have hread : readNumber ((literalOf q).text ++ t) = some ((literalOf q).decimal.value, t) := by
    rw [readNumber_run (isNumberChar_of_mem_text hvalid) ht, Literal.readLiteral_text hvalid]
    rfl
  obtain ⟨c, run, hc, happend, -, -⟩ := readNumber_eq_some hread
  refine .number ?_
  -- a number does not start with a blank
  have hblank : isBlank c = false := by
    cases h : isBlank c with
    | false => rfl
    | true =>
        simp only [isBlank, Bool.or_eq_true, decide_eq_true_eq] at h
        obtain ((rfl | rfl) | rfl) | rfl := h <;> cases hc
  have hskip : skipBlanks ((literalOf q).text ++ t) = (literalOf q).text ++ t := by
    rw [happend, List.cons_append, skipBlanks, List.dropWhile_cons_of_neg (by simp [hblank])]
  rw [hskip, hread]

mutual

/-- What is written for a value is read as the value, whatever follows. -/
theorem reads_render (gap depth : Nat) :
    ∀ (value : Json) {t : List Char}, Ends t →
      Reads (render gap depth value ++ t) (.value (reread value)) t
  | null, _, _ => .null rfl
  | boolean true, _, _ => .true rfl
  | boolean false, _, _ => .false rfl
  | number (.finite q), _, ht => reads_number q ht
  | number .nan, _, _ => .null rfl
  | number .infinity, _, _ => .null rfl
  | number .negInfinity, _, _ => .null rfl
  | string text, t, _ => by
      have htext : render gap depth (string text) ++ t =
          '"' :: (text.toList.flatMap jsonChar ++ '"' :: t) := by
        simp [render, stringText]
      rw [htext]
      exact .string rfl (readString_stringText text t)
  | array [], _, _ => .emptyArray rfl rfl
  | array (item :: items), t, _ => by
      have hitem := reads_render gap (depth + 1) item (ends_renderItems gap depth items (t := t))
      have htext : render gap depth (array (item :: items)) ++ t =
          '[' :: (lineBreak gap (depth + 1) ++ (render gap (depth + 1) item ++
            (renderItems gap depth items ++ t))) := by
        simp only [render, List.cons_append, List.append_assoc]
      rw [htext]
      exact .array rfl (hitem.behind gap (depth + 1)) (reads_renderItems gap depth items t)
  | object [], _, _ => .emptyObject rfl rfl
  | object ((key, value) :: fields), t, _ => by
      have hvalue := reads_render gap (depth + 1) value
        (ends_renderFields gap depth fields (t := t))
      have htext : render gap depth (object ((key, value) :: fields)) ++ t =
          '\x7b' :: (lineBreak gap (depth + 1) ++ (stringText key ++ (colon gap ++
            (render gap (depth + 1) value ++ (renderFields gap depth fields ++ t))))) := by
        simp only [render, List.cons_append, List.append_assoc]
      rw [htext]
      exact .object rfl ((reads_field gap hvalue).behind gap (depth + 1))
        (reads_renderFields gap depth fields t)

theorem reads_renderItems (gap depth : Nat) :
    ∀ (items : List Json) (t : List Char),
      Reads (renderItems gap depth items ++ t) (.items (rereadItems items)) t
  | [], t => by
      have hend : Reads (']' :: t) (.items []) t := .noItems rfl
      rw [renderItems, List.append_assoc]
      exact hend.behind gap depth
  | item :: items, t => by
      have hitem := reads_render gap (depth + 1) item (ends_renderItems gap depth items (t := t))
      have htext : renderItems gap depth (item :: items) ++ t =
          ',' :: (lineBreak gap (depth + 1) ++ (render gap (depth + 1) item ++
            (renderItems gap depth items ++ t))) := by
        simp only [renderItems, List.cons_append, List.append_assoc]
      rw [htext]
      exact .items rfl (hitem.behind gap (depth + 1)) (reads_renderItems gap depth items t)

theorem reads_renderFields (gap depth : Nat) :
    ∀ (fields : List (String × Json)) (t : List Char),
      Reads (renderFields gap depth fields ++ t) (.fields (rereadFields fields)) t
  | [], t => by
      have hend : Reads ('\x7d' :: t) (.fields []) t := .noFields rfl
      rw [renderFields, List.append_assoc]
      exact hend.behind gap depth
  | (key, value) :: fields, t => by
      have hvalue := reads_render gap (depth + 1) value
        (ends_renderFields gap depth fields (t := t))
      have htext : renderFields gap depth ((key, value) :: fields) ++ t =
          ',' :: (lineBreak gap (depth + 1) ++ (stringText key ++ (colon gap ++
            (render gap (depth + 1) value ++ (renderFields gap depth fields ++ t))))) := by
        simp only [renderFields, List.cons_append, List.append_assoc]
      rw [htext]
      exact .fields rfl ((reads_field gap hvalue).behind gap (depth + 1))
        (reads_renderFields gap depth fields t)

end

/-- `JSON.parse(JSON.stringify(value, null, gap))`. -/
theorem parse_stringify (gap : Nat) (value : Json) :
    parse (stringify gap value) = some (reread value) := by
  have hends : Ends [] := fun _ hc => nomatch hc
  have hreads := reads_render gap 0 value hends
  rw [List.append_nil] at hreads
  refine parse_eq_some_iff.mpr ⟨[], ?_, rfl⟩
  rwa [stringify, String.toList_ofList]

/-! ## Texts that are cut off -/

/-- A text is read in one way. -/
theorem Reads.unique {value value' : Json} {rest' : List Char} (h : Reads t (.value value) rest)
    (h' : Reads t (.value value') rest') : value = value' ∧ rest = rest' := by
  have hparsed : parseValue (t.length + 1) t = some (value, rest) := h.parsed (Nat.lt_succ_self _)
  have hparsed' : parseValue (t.length + 1) t = some (value', rest') :=
    h'.parsed (Nat.lt_succ_self _)
  exact Prod.mk.inj (Option.some.inj (hparsed.symm.trans hparsed'))

/-- A text of an array that is cut off anywhere is not parsed. -/
theorem parse_cut {cut : List Char} {value : Json} (h : Reads ('[' :: t) (.value value) [])
    (hcut : cut <+: '[' :: t) (hne : cut ≠ '[' :: t) : parse (String.ofList cut) = none := by
  obtain ⟨q, happend⟩ := hcut
  have hq : q ≠ [] := by
    rintro rfl
    exact hne (by rw [← happend, List.append_nil])
  cases hparse : parse (String.ofList cut) with
  | none => rfl
  | some value' =>
      obtain ⟨rest, hreads, -⟩ := parse_eq_some_iff.mp hparse
      rw [String.toList_ofList] at hreads
      obtain ⟨c, tail, rfl⟩ := List.exists_cons_of_ne_nil hreads.ne_nil
      obtain ⟨rfl, -⟩ := List.cons.inj happend
      -- the part of the text starts with a bracket, so it is no number that could go on
      have hclosed : Closed rest (.value value') := by
        unfold Closed
        split
        · next heq =>
            obtain rfl := Part.value.inj heq
            cases hreads with
            | number hread =>
                rw [show skipBlanks ('[' :: tail) = '[' :: tail from rfl, readNumber_cons rfl] at hread
                cases hread
        · next heq => cases heq
        · trivial
      have hlonger := hreads.append hclosed q
      rw [happend] at hlonger
      exact absurd (List.append_eq_nil_iff.mp (h.unique hlonger).2.symm).2 hq

theorem parse_stringify_cut (gap : Nat) (items : List Json) {cut : List Char}
    (hcut : cut <+: (stringify gap (array items)).toList)
    (hne : cut ≠ (stringify gap (array items)).toList) : parse (String.ofList cut) = none := by
  have hends : Ends [] := fun _ hc => nomatch hc
  have hreads := reads_render gap 0 (array items) hends
  rw [stringify, String.toList_ofList] at hcut hne
  cases items with
  | nil => exact parse_cut hreads hcut hne
  | cons item items =>
      rw [List.append_nil] at hreads
      rw [render] at hreads hcut hne
      exact parse_cut hreads hcut hne

/-! ## The fields of objects -/

theorem fieldOf_cons (field : String × Json) (fields : List (String × Json)) (key : String) :
    fieldOf (field :: fields) key = if field.1 = key then some field.2 else fieldOf fields key := by
  rw [fieldOf, List.find?_cons]
  by_cases h : field.1 = key <;> simp [h, fieldOf]

theorem fieldOf_append (before fields : List (String × Json)) (key : String) :
    fieldOf (before ++ fields) key = (fieldOf before key).or (fieldOf fields key) := by
  rw [fieldOf, List.find?_append, Option.map_or]
  rfl

theorem fieldOf_eq_none_iff {fields : List (String × Json)} {key : String} :
    fieldOf fields key = none ↔ key ∉ fields.map Prod.fst := by
  rw [fieldOf, Option.map_eq_none_iff, List.find?_eq_none]
  simp only [List.mem_map, not_exists, not_and, decide_eq_true_eq]

/-- A new field stands between the fields before and behind it. -/
theorem setField_of_notMem {fields : List (String × Json)} {key : String}
    (h : key ∉ fields.map Prod.fst) (value : Json) : ∃ before after,
      fields = before ++ after ∧ setField fields key value = before ++ (key, value) :: after := by
  refine ⟨fields.takeWhile fun field => ! precedes key field.1,
    fields.dropWhile fun field => ! precedes key field.1,
    List.takeWhile_append_dropWhile.symm, ?_⟩
  rw [setField, if_neg h, List.span_eq_takeWhile_dropWhile]

theorem fieldOf_setField (fields : List (String × Json)) (key key' : String) (value : Json) :
    fieldOf (setField fields key value) key' =
      if key = key' then some value else fieldOf fields key' := by
  by_cases hmem : key ∈ fields.map Prod.fst
  · rw [setField, if_pos hmem]
    induction fields with
    | nil => cases hmem
    | cons field fields ih =>
        rw [List.map_cons, fieldOf_cons, fieldOf_cons]
        by_cases hfield : field.1 = key
        · rw [if_pos hfield]
          dsimp only
          by_cases hkey : key = key'
          · rw [if_pos hkey, if_pos hkey]
          · rw [if_neg hkey, if_neg hkey, if_neg (by rwa [hfield])]
            by_cases hrest : key ∈ fields.map Prod.fst
            · rw [ih hrest, if_neg hkey]
            · -- the key does not occur again
              have hsame : (fields.map fun f => if f.1 = key then (key, value) else f) = fields := by
                conv_rhs => rw [← List.map_id fields]
                refine List.map_congr_left fun f hf => if_neg fun heq => hrest ?_
                exact heq ▸ List.mem_map_of_mem hf
              rw [hsame]
        · rw [if_neg hfield]
          have hrest : key ∈ fields.map Prod.fst :=
            (List.mem_cons.mp hmem).resolve_left fun heq => hfield heq.symm
          rw [ih hrest]
          by_cases hkey : key = key'
          · rw [if_pos hkey, if_pos hkey, if_neg (hkey ▸ hfield)]
          · rw [if_neg hkey, if_neg hkey]
  · obtain ⟨before, after, happend, hset⟩ := setField_of_notMem hmem value
    rw [hset, fieldOf_append, fieldOf_cons]
    by_cases hkey : key = key'
    · have hbefore : fieldOf before key' = none := by
        rw [fieldOf_eq_none_iff, ← hkey]
        exact fun h => hmem (by rw [happend, List.map_append]; exact List.mem_append_left _ h)
      rw [if_pos hkey, if_pos hkey, hbefore, Option.none_or]
    · rw [if_neg hkey, if_neg hkey, happend, fieldOf_append]

theorem nodup_setField {fields : List (String × Json)} (h : (fields.map Prod.fst).Nodup)
    (key : String) (value : Json) : ((setField fields key value).map Prod.fst).Nodup := by
  by_cases hmem : key ∈ fields.map Prod.fst
  · rw [setField, if_pos hmem, List.map_map]
    have hkeys : fields.map (Prod.fst ∘ fun f => if f.1 = key then (key, value) else f) =
        fields.map Prod.fst := by
      refine List.map_congr_left fun f _ => ?_
      by_cases hf : f.1 = key <;> simp [hf]
    rwa [hkeys]
  · obtain ⟨before, after, rfl, hset⟩ := setField_of_notMem hmem value
    rw [List.map_append] at h hmem
    rw [hset, List.map_append, List.map_cons, List.nodup_middle, List.nodup_cons]
    exact ⟨hmem, h⟩

theorem nodup_ofFields (fields : List (String × Json)) :
    ((ofFields fields).map Prod.fst).Nodup := by
  have hfold : ∀ fields acc : List (String × Json), (acc.map Prod.fst).Nodup →
      ((fields.foldl (fun acc f => setField acc f.1 f.2) acc).map Prod.fst).Nodup := by
    intro fields
    induction fields with
    | nil => exact fun acc h => h
    | cons f fields ih => exact fun acc h => ih _ (nodup_setField h f.1 f.2)
  exact hfold fields [] List.nodup_nil

/-- The fields of an object stay as they are when they are written one after the other. -/
theorem fieldOf_ofFields {fields : List (String × Json)} (h : (fields.map Prod.fst).Nodup)
    (key : String) : fieldOf (ofFields fields) key = fieldOf fields key := by
  have hfold : ∀ fields acc : List (String × Json), (fields.map Prod.fst).Nodup →
      fieldOf (fields.foldl (fun acc f => setField acc f.1 f.2) acc) key =
        (fieldOf fields key).or (fieldOf acc key) := by
    intro fields
    induction fields with
    | nil => exact fun acc _ => rfl
    | cons f fields ih =>
        intro acc hnodup
        rw [List.map_cons, List.nodup_cons] at hnodup
        rw [List.foldl_cons, ih _ hnodup.2, fieldOf_setField, fieldOf_cons]
        by_cases hkey : f.1 = key
        · have hnone : fieldOf fields key = none :=
            fieldOf_eq_none_iff.mpr (hkey ▸ hnodup.1)
          rw [if_pos hkey, if_pos hkey, hnone]
          rfl
        · rw [if_neg hkey, if_neg hkey]
  have hempty : fieldOf [] key = none := rfl
  rw [ofFields, hfold fields [] h, hempty, Option.or_none]

theorem map_fst_rereadFields (fields : List (String × Json)) :
    (rereadFields fields).map Prod.fst = fields.map Prod.fst := by
  induction fields with
  | nil => rfl
  | cons f fields ih =>
      obtain ⟨key, value⟩ := f
      rw [rereadFields, List.map_cons, ih]
      rfl

theorem fieldOf_rereadFields (fields : List (String × Json)) (key : String) :
    fieldOf (rereadFields fields) key = (fieldOf fields key).map reread := by
  induction fields with
  | nil => rfl
  | cons f fields ih =>
      obtain ⟨name, value⟩ := f
      rw [rereadFields, fieldOf_cons, fieldOf_cons, ih]
      split <;> rfl

/-- The fields of an object that is written and read back. -/
theorem fieldOf_reread {fields : List (String × Json)} (h : (fields.map Prod.fst).Nodup)
    (key : String) :
    fieldOf (ofFields (rereadFields fields)) key = (fieldOf fields key).map reread := by
  have hnodup : ((rereadFields fields).map Prod.fst).Nodup := by rwa [map_fst_rereadFields]
  rw [fieldOf_ofFields hnodup, fieldOf_rereadFields]

/-- An object has no key twice. -/
def KeyedOnce : Json → Prop
  | object fields => (fields.map Prod.fst).Nodup
  | _ => True

/-- The objects of a value, or of the items of an array, have no key twice. -/
def Part.KeyedOnce : Part → Prop
  | .value (.array list) | .items list => ∀ item ∈ list, item.KeyedOnce
  | .value json => json.KeyedOnce
  | _ => True

theorem Part.KeyedOnce.value {value : Json} (h : (Part.value value).KeyedOnce) :
    value.KeyedOnce := by
  cases value with
  | array items => trivial
  | _ => exact h

theorem Reads.keyedOnce (h : Reads t p rest) : p.KeyedOnce := by
  have hcons : ∀ {item : Json} {items : List Json}, item.KeyedOnce →
      (∀ i ∈ items, i.KeyedOnce) → ∀ i ∈ item :: items, i.KeyedOnce := by
    intro item items hitem hitems i hi
    rcases List.mem_cons.mp hi with rfl | hi
    · exact hitem
    · exact hitems i hi
  induction h with
  | array _ _ _ ih ih' | items _ _ _ ih ih' => exact hcons ih.value ih'
  | object _ _ _ _ _ => exact nodup_ofFields _
  | emptyArray _ _ | noItems _ => exact fun _ hi => nomatch hi
  | emptyObject _ _ => exact List.nodup_nil
  | _ => trivial

/-- The objects in an array that is parsed have no key twice. -/
theorem keyedOnce_of_parse {text : String} {items : List Json}
    (h : parse text = some (array items)) : ∀ item ∈ items, item.KeyedOnce := by
  obtain ⟨rest, hreads, -⟩ := parse_eq_some_iff.mp h
  exact hreads.keyedOnce

end ThinkLocal.Js.Json
