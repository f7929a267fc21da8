import ThinkLocal.Mcp.RedactResponse

/-!
# The walk redacts

A value in the memory stands for a JSON value.  Within the bounds the walk answers with cells of
its own that stand for the redaction, and beyond them with nothing.
-/

namespace ThinkLocal.Mcp

open Foundation Js

def Scalar.toJson : Scalar → Json
  | null => .null
  | boolean value => .boolean value
  | number value => .number value
  | string text => .string text

/-- A value stands for a JSON value, with so many levels of cells from a set. -/
def Represents (m : Memory) (S : Nat → Prop) : Nat → Value → Json → Prop
  | _, .scalar value, json => json = value.toJson
  | 0, .reference _, _ => False
  | levels + 1, .reference address, .array items =>
      S address ∧ ∃ values, m.get address = some (.array values) ∧
        List.Forall₂ (Represents m S levels) values items
  | levels + 1, .reference address, .object fields =>
      S address ∧ ∃ values, m.get address = some (.object values) ∧
        List.Forall₂ (fun value field => value.1 = field.1 ∧ Represents m S levels value.2 field.2)
          values fields
  | _ + 1, .reference _, _ => False

variable {safe : List String} {m m' : Memory} {S S' : Nat → Prop} {levels : Nat} {value : Value}
  {json : Json}

theorem Represents.mono (hS : ∀ a cell, S a → m.get a = some cell → S' a)
    (hm : ∀ a cell, S a → m.get a = some cell → m'.get a = some cell)
    (h : Represents m S levels value json) : Represents m' S' levels value json := by
  induction levels generalizing value json with
  | zero =>
      cases value with
      | scalar => exact h
      | reference => exact h.elim
  | succ levels ih =>
      cases value with
      | scalar => exact h
      | reference address =>
          cases json with
          | array items =>
              obtain ⟨haddress, values, hcell, hitems⟩ := h
              exact ⟨hS _ _ haddress hcell, values, hm _ _ haddress hcell,
                hitems.imp fun _ _ hitem => ih hitem⟩
          | object fields =>
              obtain ⟨haddress, values, hcell, hfields⟩ := h
              exact ⟨hS _ _ haddress hcell, values, hm _ _ haddress hcell,
                hfields.imp fun _ _ hfield => ⟨hfield.1, ih hfield.2⟩⟩
          | null | boolean | number | string => exact h.elim

/-! ## One loop -/

/-- What a step or a loop answers for something of a given cost that fits or does not. -/
def Answers (fits : Prop) (cost : Nat) (after : WalkState → Prop) (s : WalkState)
    (r : WalkState × Bool) : Prop :=
  (r.2 = false ∧ ¬ (fits ∧ s.nodes + cost ≤ MAX_NODES)) ∨
    (r.2 = true ∧ (fits ∧ s.nodes + cost ≤ MAX_NODES) ∧ r.1.nodes = s.nodes + cost ∧ after r.1)

/-- A loop answers as its steps do, one behind the other. -/
theorem answers_eachOf {β γ δ : Type} {step : β → WalkState → WalkState × Bool}
    {done : List δ → WalkState → Prop} {input : β → γ → Prop} {fits : γ → Prop} {cost : γ → Nat}
    {output : γ → List δ}
    (hstep : ∀ l s b c, done l s → s.nodes ≤ MAX_NODES → input b c →
      Answers (fits c) (cost c) (done (l ++ output c)) s (step b s))
    {bs : List β} {cs : List γ} (hinput : List.Forall₂ input bs cs) {l : List δ} {s : WalkState}
    (hdone : done l s) (hnodes : s.nodes ≤ MAX_NODES) :
    Answers (∀ c ∈ cs, fits c) (cs.map cost).sum (done (l ++ cs.flatMap output)) s
      (eachOf step bs s) := by
  induction hinput generalizing l s with
  | nil => exact .inr ⟨rfl, ⟨by simp, by simpa using hnodes⟩, by simp [eachOf], by simpa [eachOf]⟩
  | @cons b c bs cs hfirst _ ih =>
      rw [eachOf]
      -- the loop ends at the first step that fails, else the rest is the induction hypothesis
      rcases hstep l s b c hdone hnodes hfirst with ⟨hfails, hnot⟩ | ⟨hok, hfits, hcount, hafter⟩
      · rcases hresult : step b s with ⟨s₁, ok⟩
        rw [hresult] at hfails
        obtain rfl : ok = false := hfails
        refine .inl ⟨rfl, ?_⟩
        rintro ⟨hall, hsum⟩
        refine hnot ⟨hall c List.mem_cons_self, ?_⟩
        rw [List.map_cons, List.sum_cons] at hsum
        omega
      · rcases hresult : step b s with ⟨s₁, ok⟩
        rw [hresult] at hok hcount hafter
        obtain rfl : ok = true := hok
        dsimp only at hcount hafter ⊢
        have hrest := ih hafter (hcount ▸ hfits.2)
        rcases hrest with ⟨hfails, hnot⟩ | ⟨hok, hall, hnodes', hdone'⟩
        · refine .inl ⟨hfails, ?_⟩
          rintro ⟨hall, hsum⟩
          refine hnot ⟨fun c' hc' => hall c' (List.mem_cons_of_mem _ hc'), ?_⟩
          rw [List.map_cons, List.sum_cons] at hsum
          omega
        · refine .inr ⟨hok, ⟨?_, ?_⟩, ?_, ?_⟩
          · simpa using ⟨hfits.1, hall.1⟩
          · rw [List.map_cons, List.sum_cons]
            omega
          · rw [List.map_cons, List.sum_cons]
            omega
          · simpa [List.append_assoc] using hdone'

/-! ## The cell that is filled -/

section Filled

variable {ν δ : Type} {s₀ s s' : WalkState} {cell : List ν → Cell}
  {stands : Memory → ν → δ → Prop} {done more : List δ}

/-- The relation looks at cells behind an address only. -/
def Behind (out : Nat) (stands : Memory → ν → δ → Prop) : Prop :=
  ∀ m m' v j, (∀ a cell, out < a → m.get a = some cell → m'.get a = some cell) →
    stands m v j → stands m' v j

/-- The cell that was allocated first stands for what is done, and the cells before are kept. -/
structure Filled (s₀ : WalkState) (cell : List ν → Cell) (stands : Memory → ν → δ → Prop)
    (done : List δ) (s : WalkState) : Prop where
  keeps : Keeps s₀.memory.next s₀ s
  allocated : s₀.memory.next < s.memory.next
  holds : ∃ values, s.memory.get s₀.memory.next = some (cell values) ∧
    List.Forall₂ (stands s.memory) values done

theorem Filled.alloc : Filled s₀ cell stands [] (s₀.alloc (cell [])) :=
  ⟨Keeps.alloc le_rfl _, Nat.lt_succ_self _, [], Arena.get_alloc_next _ _, .nil⟩

theorem Filled.count (h : Filled s₀ cell stands done s) : Filled s₀ cell stands done s.count :=
  ⟨h.keeps.trans (Keeps.count _ s), h.allocated, h.holds⟩

/-- A walk that comes later leaves it filled. -/
theorem Filled.walk (hbehind : Behind s₀.memory.next stands) (h : Filled s₀ cell stands done s)
    (hkeeps : Keeps s.memory.next s s') : Filled s₀ cell stands done s' := by
  obtain ⟨values, hcell, hvalues⟩ := h.holds
  refine ⟨h.keeps.trans (hkeeps.weaken h.allocated.le), h.allocated.trans_le hkeeps.next_le,
    values, ?_, ?_⟩
  · rw [hkeeps.get_eq _ h.allocated, hcell]
  · refine hvalues.imp fun v j hv => hbehind _ _ v j ?_ hv
    intro a cell _ hget
    rw [hkeeps.get_eq a (s.memory.lt_next hget), hget]

/-- Writing to it adds what is written. -/
theorem Filled.write (hbehind : Behind s₀.memory.next stands) (h : Filled s₀ cell stands done s)
    {change : Cell → Cell} {added : List ν}
    (hchange : ∀ values, change (cell values) = cell (values ++ added))
    (hadded : List.Forall₂ (stands s.memory) added more) :
    Filled s₀ cell stands (done ++ more) (s.write s₀.memory.next change) := by
  obtain ⟨values, hcell, hvalues⟩ := h.holds
  refine ⟨h.keeps.trans (Keeps.write le_rfl s change), h.allocated, values ++ added, ?_, ?_⟩
  · rw [WalkState.write, Arena.get_modify_self, hcell, Option.map_some, hchange]
  · refine (List.rel_append hvalues hadded).imp fun v j hv => hbehind _ _ v j ?_ hv
    intro a cell ha hget
    rw [WalkState.write, Arena.get_modify, if_neg (Nat.ne_of_gt ha), hget]

end Filled

/-! ## The walk -/

/-- What the walk answers for a JSON value. -/
def WalkAnswers (safe : List String) (levels : Nat) (underSafeKey : Bool) (json : Json)
    (s : WalkState) (r : WalkState × Option Value) : Prop :=
  (r.2 = none ∧
      ¬ (walkedDepth safe json < levels ∧ s.nodes + walkedNodes safe json ≤ MAX_NODES)) ∨
    ∃ value, r.2 = some value ∧
      (walkedDepth safe json < levels ∧ s.nodes + walkedNodes safe json ≤ MAX_NODES) ∧
        r.1.nodes = s.nodes + walkedNodes safe json ∧
          Represents r.1.memory (s.memory.next ≤ ·) levels value (redacted safe underSafeKey json)

variable {underSafeKey : Bool} {s₀ s : WalkState} {n base : Nat}

theorem behind_represents (out levels : Nat) :
    Behind out fun m => Represents m (out < ·) levels :=
  fun _ _ _ _ hm h => h.mono (fun _ _ ha _ => ha) hm

theorem behind_fields (out levels : Nat) :
    Behind out fun m (value : String × Value) (field : String × Json) =>
      value.1 = field.1 ∧ Represents m (out < ·) levels value.2 field.2 :=
  fun _ _ _ _ hm h => ⟨h.1, h.2.mono (fun _ _ ha _ => ha) hm⟩

/-- What stands for a JSON value in the input still does in a later state. -/
theorem Represents.later (hkeeps : Keeps base s₀ s)
    (h : Represents s₀.memory (· < base) n value json) :
    Represents s.memory (· < base) n value json :=
  h.mono (fun _ _ ha _ => ha) fun a cell ha hget => by rw [hkeeps.get_eq a ha, hget]

/-- A walk that is counted, and that leaves what it answers in a cell. -/
theorem answers_walk {out : Nat} {change : Value → Cell → Cell} {after : WalkState → Prop}
    (hwalk : s.count.nodes ≤ MAX_NODES → WalkAnswers safe levels underSafeKey json s.count
      (redactLevels safe levels underSafeKey value s.count))
    (hafter : ∀ s₁ result, Keeps s.memory.next s.count s₁ →
      Represents s₁.memory (s.memory.next ≤ ·) levels result (redacted safe underSafeKey json) →
        after (s₁.write out (change result))) :
    Answers (walkedDepth safe json < levels) (1 + walkedNodes safe json) after s
      (if MAX_NODES < s.count.nodes then (s.count, false)
        else match redactLevels safe levels underSafeKey value s.count with
          | (s₁, none) => (s₁, false)
          | (s₁, some result) => (s₁.write out (change result), true)) := by
  have hcount : s.count.nodes = s.nodes + 1 := rfl
  split
  case isTrue hmany =>
    -- too many nodes have been counted already
    refine .inl ⟨rfl, fun ⟨_, hsum⟩ => ?_⟩
    omega
  case isFalse hfew =>
    have hkeeps := keeps_redactLevels safe levels underSafeKey value s.count
    have hanswers := hwalk (not_lt.mp hfew)
    rcases hresult : redactLevels safe levels underSafeKey value s.count with ⟨s₁, answer⟩
    rw [hresult] at hkeeps hanswers
    rcases hanswers with ⟨hnone, hnot⟩ | ⟨result, hsome, hfits, hnodes, hstands⟩
    · obtain rfl : answer = none := hnone
      refine .inl ⟨rfl, fun ⟨hdepth, hsum⟩ => hnot ⟨hdepth, ?_⟩⟩
      omega
    · obtain rfl : answer = some result := hsome
      dsimp only at hnodes hstands hkeeps ⊢
      refine .inr ⟨rfl, ⟨hfits.1, ?_⟩, ?_, hafter s₁ result hkeeps hstands⟩
      · have hsum := hfits.2
        omega
      · rw [WalkState.write]
        dsimp only
        omega

/-- One item. -/
theorem answers_redactItem {done : List Json}
    (hwalk : ∀ value json s, Keeps s₀.memory.next s₀ s → s.nodes ≤ MAX_NODES →
      Represents s₀.memory (· < s₀.memory.next) n value json →
        WalkAnswers safe levels underSafeKey json s
          (redactLevels safe levels underSafeKey value s))
    (hdone : Filled s₀ .array (fun m => Represents m (s₀.memory.next < ·) levels) done s)
    (hitem : Represents s₀.memory (· < s₀.memory.next) n value json) :
    Answers (walkedDepth safe json < levels) (1 + walkedNodes safe json)
      (Filled s₀ .array (fun m => Represents m (s₀.memory.next < ·) levels)
        (done ++ [redacted safe underSafeKey json])) s
      (redactItem (redactLevels safe levels underSafeKey) s₀.memory.next value s) := by
  have hbehind := behind_represents s₀.memory.next levels
  refine answers_walk (fun hfew => hwalk value json s.count hdone.count.keeps hfew hitem)
    fun s₁ result hkeeps hstands => ?_
  -- what comes of the walk is written into the new array
  refine (hdone.count.walk hbehind hkeeps).write hbehind (fun _ => rfl) (.cons ?_ .nil)
  exact hstands.mono (fun _ _ ha _ => hdone.allocated.trans_le ha) fun _ _ _ hget => hget

/-- What a field leaves. -/
def fieldOutput (safe : List String) (field : String × Json) : List (String × Json) :=
  if field.1 = "__proto__" then []
  else [(field.1, if field.1 ∈ safe then redacted safe true field.2 else .string REDACTED)]

def fieldCost (safe : List String) (field : String × Json) : Nat :=
  1 + if field.1 ∈ safe then walkedNodes safe field.2 else 0

/-- The relation between the fields of a cell and of a JSON value. -/
abbrev StandsForField (m : Memory) (S : Nat → Prop) (levels : Nat) (value : String × Value)
    (field : String × Json) : Prop :=
  value.1 = field.1 ∧ Represents m S levels value.2 field.2

/-- Writing a field. -/
theorem Filled.assign {done : List (String × Json)} {key : String} {result : Value} {left : Json}
    (h : Filled s₀ .object (fun m => StandsForField m (s₀.memory.next < ·) levels) done s)
    (hstands : Represents s.memory (s₀.memory.next < ·) levels result left) :
    Filled s₀ .object (fun m => StandsForField m (s₀.memory.next < ·) levels)
      (done ++ if key = "__proto__" then [] else [(key, left)])
      (s.write s₀.memory.next (Cell.assign key result)) := by
  have hbehind := behind_fields s₀.memory.next levels
  by_cases hkey : key = "__proto__"
  · rw [if_pos hkey]
    have hchange : ∀ values, Cell.assign key result (.object values) = .object (values ++ []) := by
      intro values
      rw [Cell.assign, if_pos hkey, List.append_nil]
    exact h.write hbehind hchange .nil
  · rw [if_neg hkey]
    have hchange : ∀ values,
        Cell.assign key result (.object values) = .object (values ++ [(key, result)]) := by
      intro values
      rw [Cell.assign, if_neg hkey]
    exact h.write hbehind hchange (.cons ⟨rfl, hstands⟩ .nil)

/-- One field. -/
theorem answers_redactField {done : List (String × Json)} {field : String × Value}
    {jsonField : String × Json}
    (hwalk : ∀ value json s, Keeps s₀.memory.next s₀ s → s.nodes ≤ MAX_NODES →
      Represents s₀.memory (· < s₀.memory.next) n value json →
        WalkAnswers safe levels true json s (redactLevels safe levels true value s))
    (hdone : Filled s₀ .object (fun m => StandsForField m (s₀.memory.next < ·) levels) done s)
    (hfield : StandsForField s₀.memory (· < s₀.memory.next) n field jsonField) :
    Answers (jsonField.1 ∈ safe → walkedDepth safe jsonField.2 < levels) (fieldCost safe jsonField)
      (Filled s₀ .object (fun m => StandsForField m (s₀.memory.next < ·) levels)
        (done ++ fieldOutput safe jsonField)) s
      (redactField safe (redactLevels safe levels true) s₀.memory.next field s) := by
  obtain ⟨key, json⟩ := jsonField
  obtain ⟨key', value⟩ := field
  obtain ⟨rfl, hvalue⟩ : key' = key ∧ Represents s₀.memory (· < s₀.memory.next) n value json :=
    hfield
  unfold redactField fieldCost fieldOutput
  by_cases hsafe : key' ∈ safe
  · simp only [hsafe, true_imp_iff, reduceIte]
    refine answers_walk (fun hfew => hwalk value json s.count hdone.count.keeps hfew hvalue)
      fun s₁ result hkeeps hstands => ?_
    refine (hdone.count.walk (behind_fields _ _) hkeeps).assign ?_
    exact hstands.mono (fun _ _ ha _ => hdone.allocated.trans_le ha) fun _ _ _ hget => hget
  · -- the value of the key is not looked at
    have hcount : s.count.nodes = s.nodes + 1 := rfl
    simp only [hsafe, false_imp_iff, reduceIte]
    by_cases hmany : MAX_NODES < s.count.nodes
    · rw [if_pos hmany]
      refine .inl ⟨rfl, fun ⟨_, hsum⟩ => ?_⟩
      omega
    · rw [if_neg hmany]
      refine .inr ⟨rfl, ⟨trivial, ?_⟩, rfl, ?_⟩
      · omega
      · refine hdone.count.assign ?_
        cases levels <;> rfl

/-! ## The levels -/

theorem itemsDepth_lt {items : List Json} :
    itemsDepth safe items < levels + 1 ↔ ∀ item ∈ items, walkedDepth safe item < levels := by
  induction items with
  | nil => simp [itemsDepth]
  | cons item items ih =>
      rw [itemsDepth, List.forall_mem_cons, ← ih]
      omega

theorem itemsNodes_eq {items : List Json} :
    itemsNodes safe items = (items.map fun item => 1 + walkedNodes safe item).sum := by
  induction items with
  | nil => rfl
  | cons item items ih => rw [itemsNodes, List.map_cons, List.sum_cons, ih]

theorem redactedItems_eq {items : List Json} :
    redactedItems safe underSafeKey items =
      items.flatMap fun item => [redacted safe underSafeKey item] := by
  induction items with
  | nil => rfl
  | cons item items ih => rw [redactedItems, ih, List.flatMap_cons, List.singleton_append]

theorem fieldsDepth_lt {fields : List (String × Json)} :
    fieldsDepth safe fields < levels + 1 ↔
      ∀ field ∈ fields, field.1 ∈ safe → walkedDepth safe field.2 < levels := by
  induction fields with
  | nil => simp [fieldsDepth]
  | cons field fields ih =>
      obtain ⟨key, value⟩ := field
      rw [fieldsDepth, List.forall_mem_cons, ← ih]
      by_cases hsafe : key ∈ safe
      · simp only [hsafe, true_imp_iff, reduceIte]
        omega
      · simp [hsafe]

theorem fieldsNodes_eq {fields : List (String × Json)} :
    fieldsNodes safe fields = (fields.map (fieldCost safe)).sum := by
  induction fields with
  | nil => rfl
  | cons field fields ih => rw [fieldsNodes, List.map_cons, List.sum_cons, ih, fieldCost]

theorem redactedFields_eq {fields : List (String × Json)} :
    redactedFields safe fields = fields.flatMap (fieldOutput safe) := by
  induction fields with
  | nil => rfl
  | cons field fields ih =>
      rw [redactedFields, ih, List.flatMap_cons, fieldOutput]
      split <;> rfl

/-- The walk with fewer levels answers for what stands in the memory of a state. -/
def WalksBelow (safe : List String) (levels n : Nat) (underSafeKey : Bool) (s₀ : WalkState) : Prop :=
  ∀ value json s, Keeps s₀.memory.next s₀ s → s.nodes ≤ MAX_NODES →
    Represents s₀.memory (· < s₀.memory.next) n value json →
      WalkAnswers safe levels underSafeKey json s (redactLevels safe levels underSafeKey value s)

theorem walkAnswers_array {address : Nat} {values : List Value} {items : List Json}
    (hwalk : WalksBelow safe levels n underSafeKey s)
    (hcell : s.memory.get address = some (.array values))
    (hitems : List.Forall₂ (Represents s.memory (· < s.memory.next) n) values items)
    (hnodes : s.nodes ≤ MAX_NODES) :
    WalkAnswers safe (levels + 1) underSafeKey (.array items) s
      (redactLevels safe (levels + 1) underSafeKey (.reference address) s) := by
  have hstep : ∀ l s' b c,
      Filled s .array (fun m => Represents m (s.memory.next < ·) levels) l s' →
      s'.nodes ≤ MAX_NODES → Represents s.memory (· < s.memory.next) n b c →
      Answers (walkedDepth safe c < levels) (1 + walkedNodes safe c)
        (Filled s .array (fun m => Represents m (s.memory.next < ·) levels)
          (l ++ [redacted safe underSafeKey c])) s'
        (redactItem (redactLevels safe levels underSafeKey) s.memory.next b s') :=
    fun _ _ _ _ hdone _ hinput => answers_redactItem hwalk hdone hinput
  -- the loop starts with the new array, which is still empty
  have hloop := answers_eachOf hstep hitems Filled.alloc hnodes
  have halloc : (s.alloc (.array [])).nodes = s.nodes := rfl
  rw [← itemsDepth_lt, ← itemsNodes_eq, ← redactedItems_eq, List.nil_append, Answers, halloc]
    at hloop
  rw [redactLevels, hcell, WalkAnswers, walkedDepth, walkedNodes, redacted]
  dsimp only
  rcases hresult : eachOf (redactItem (redactLevels safe levels underSafeKey) s.memory.next) values
    (s.alloc (.array [])) with ⟨s₁, ok⟩
  rw [hresult] at hloop
  rcases hloop with ⟨hfails, hnot⟩ | ⟨hok, hfits, hcount, hfilled⟩
  · obtain rfl : ok = false := hfails
    exact .inl ⟨rfl, hnot⟩
  · obtain rfl : ok = true := hok
    obtain ⟨out, hout, hstands⟩ := hfilled.holds
    refine .inr ⟨.reference s.memory.next, rfl, hfits, hcount, le_rfl, out, hout, ?_⟩
    exact hstands.imp fun _ _ h => h.mono (fun _ _ ha _ => ha.le) fun _ _ _ hget => hget

theorem walkAnswers_object {address : Nat} {values : List (String × Value)}
    {fields : List (String × Json)} (hwalk : WalksBelow safe levels n true s)
    (hcell : s.memory.get address = some (.object values))
    (hfields : List.Forall₂ (StandsForField s.memory (· < s.memory.next) n) values fields)
    (hnodes : s.nodes ≤ MAX_NODES) :
    WalkAnswers safe (levels + 1) underSafeKey (.object fields) s
      (redactLevels safe (levels + 1) underSafeKey (.reference address) s) := by
  have hstep : ∀ l s' b c,
      Filled s .object (fun m => StandsForField m (s.memory.next < ·) levels) l s' →
      s'.nodes ≤ MAX_NODES → StandsForField s.memory (· < s.memory.next) n b c →
      Answers (c.1 ∈ safe → walkedDepth safe c.2 < levels) (fieldCost safe c)
        (Filled s .object (fun m => StandsForField m (s.memory.next < ·) levels)
          (l ++ fieldOutput safe c)) s'
        (redactField safe (redactLevels safe levels true) s.memory.next b s') :=
    fun _ _ _ _ hdone _ hinput => answers_redactField hwalk hdone hinput
  -- the fields are handled like the items of an array, the others are left out
  have hloop := answers_eachOf hstep hfields Filled.alloc hnodes
  have halloc : (s.alloc (.object [])).nodes = s.nodes := rfl
  rw [← fieldsDepth_lt, ← fieldsNodes_eq, ← redactedFields_eq, List.nil_append, Answers, halloc]
    at hloop
  rw [redactLevels, hcell, WalkAnswers, walkedDepth, walkedNodes, redacted]
  dsimp only
  rcases hresult : eachOf (redactField safe (redactLevels safe levels true) s.memory.next) values
    (s.alloc (.object [])) with ⟨s₁, ok⟩
  rw [hresult] at hloop
  rcases hloop with ⟨hfails, hnot⟩ | ⟨hok, hfits, hcount, hfilled⟩
  · obtain rfl : ok = false := hfails
    exact .inl ⟨rfl, hnot⟩
  · obtain rfl : ok = true := hok
    obtain ⟨out, hout, hstands⟩ := hfilled.holds
    refine .inr ⟨.reference s.memory.next, rfl, hfits, hcount, le_rfl, out, hout, ?_⟩
    exact hstands.imp fun _ _ h =>
      ⟨h.1, h.2.mono (fun _ _ ha _ => ha.le) fun _ _ _ hget => hget⟩

/-- The walk redacts within its bounds, and gives up beyond them. -/
theorem walkAnswers_redactLevels (hstands : Represents s.memory (· < s.memory.next) n value json)
    (hnodes : s.nodes ≤ MAX_NODES) :
    WalkAnswers safe levels underSafeKey json s (redactLevels safe levels underSafeKey value s) := by
  induction levels generalizing underSafeKey value json s n with
  | zero => exact .inl ⟨rfl, fun ⟨hdepth, _⟩ => absurd hdepth (Nat.not_lt_zero _)⟩
  | succ levels ih =>
      -- inside, the input still stands in the memory of the state before
      have hwalk : ∀ underSafeKey n, WalksBelow safe levels n underSafeKey s := by
        intro underSafeKey n value json s' hkeeps hnodes' hinput
        refine ih ((hinput.later hkeeps).mono ?_ fun _ _ _ hget => hget) hnodes'
        intro a _ ha _
        exact ha.trans_le hkeeps.next_le
      cases value with
      | scalar value =>
          obtain rfl : json = value.toJson := by cases n <;> exact hstands
          refine .inr ⟨.scalar (if underSafeKey then value else .string REDACTED), rfl, ?_, ?_, ?_⟩
          · cases value <;> exact ⟨Nat.succ_pos _, hnodes⟩
          · cases value <;> rfl
          · cases value <;> cases underSafeKey <;> rfl
      | reference address =>
          cases n with
          | zero => exact hstands.elim
          | succ n =>
              cases json with
              | null | boolean | number | string => exact hstands.elim
              | array items =>
                  obtain ⟨-, values, hcell, hitems⟩ := hstands
                  exact walkAnswers_array (hwalk underSafeKey n) hcell hitems hnodes
              | object fields =>
                  obtain ⟨-, values, hcell, hfields⟩ := hstands
                  exact walkAnswers_object (hwalk true n) hcell hfields hnodes

/-! ## Calls -/

/-- A value stands for a JSON value. -/
def StandsFor (m : Memory) (value : Value) (json : Json) : Prop :=
  ∃ levels, Represents m (· < m.next) levels value json

/-- What the walk meets is within its bounds. -/
def WithinBounds (safe : List String) (json : Json) : Prop :=
  walkedDepth safe json ≤ MAX_DEPTH ∧ walkedNodes safe json ≤ MAX_NODES

theorem eq_of_forall₂ {α β : Type} {R R' : α → β → Prop}
    (hunique : ∀ v j j', R v j → R' v j' → j = j') {values : List α} {items items' : List β}
    (h : List.Forall₂ R values items) (h' : List.Forall₂ R' values items') : items = items' := by
  induction h generalizing items' with
  | nil => cases h' with | nil => rfl
  | cons hfirst _ ih =>
      cases h' with
      | cons hfirst' hrest' => rw [hunique _ _ _ hfirst hfirst', ih hrest']

/-- A value stands for one JSON value only. -/
theorem Represents.unique {n' : Nat} {json' : Json} (h : Represents m S n value json)
    (h' : Represents m S' n' value json') : json = json' := by
  induction n generalizing n' value json json' with
  | zero =>
      cases value with
      | scalar value =>
          obtain rfl : json' = value.toJson := by cases n' <;> exact h'
          exact h
      | reference => exact h.elim
  | succ n ih =>
      cases value with
      | scalar value =>
          obtain rfl : json' = value.toJson := by cases n' <;> exact h'
          exact h
      | reference address =>
          cases n' with
          | zero => exact h'.elim
          | succ n' =>
              cases json with
              | null | boolean | number | string => exact h.elim
              | array items =>
                  obtain ⟨-, values, hcell, hitems⟩ := h
                  cases json' with
                  | null | boolean | number | string => exact h'.elim
                  -- both name the same cell, so its values are compared one by one
                  | array items' =>
                      obtain ⟨-, values', hcell', hitems'⟩ := h'
                      obtain rfl : values = values' := by
                        simpa [hcell] using hcell'
                      have hsame : items = items' := by
                        refine eq_of_forall₂ ?_ hitems hitems'
                        intro v j j' hv hv'
                        exact ih hv hv'
                      rw [hsame]
                  | object fields' =>
                      -- one cell is not an array and an object
                      obtain ⟨-, values', hcell', -⟩ := h'
                      simp [hcell] at hcell'
              | object fields =>
                  obtain ⟨-, values, hcell, hfields⟩ := h
                  cases json' with
                  | null | boolean | number | string => exact h'.elim
                  | array items' =>
                      obtain ⟨-, values', hcell', -⟩ := h'
                      simp [hcell] at hcell'
                  | object fields' =>
                      obtain ⟨-, values', hcell', hfields'⟩ := h'
                      obtain rfl : values = values' := by
                        simpa [hcell] using hcell'
                      have hsame : fields = fields' := by
                        refine eq_of_forall₂ ?_ hfields hfields'
                        rintro v ⟨key, j⟩ ⟨key', j'⟩ ⟨rfl, hv⟩ ⟨rfl, hv'⟩
                        exact Prod.ext rfl (ih hv hv')
                      rw [hsame]

theorem redactByAllowlist_answers (safe : List String) (h : StandsFor m value json) :
    (WithinBounds safe json → ∃ result, (redactByAllowlist safe value m).2 = some result ∧
      StandsFor (redactByAllowlist safe value m).1 result (redacted safe false json)) ∧
    (¬ WithinBounds safe json → (redactByAllowlist safe value m).2 = none) := by
  obtain ⟨n, hstands⟩ := h
  have hanswers : WalkAnswers safe (MAX_DEPTH + 1) false json ⟨m, 0⟩
      (redactLevels safe (MAX_DEPTH + 1) false value ⟨m, 0⟩) :=
    walkAnswers_redactLevels hstands (Nat.zero_le _)
  have hbounds : (walkedDepth safe json < MAX_DEPTH + 1 ∧
      (⟨m, 0⟩ : WalkState).nodes + walkedNodes safe json ≤ MAX_NODES) ↔ WithinBounds safe json := by
    rw [WithinBounds, Nat.lt_succ_iff, Nat.zero_add]
  rw [WalkAnswers, hbounds] at hanswers
  rw [redactByAllowlist]
  rcases hanswers with ⟨hnone, hnot⟩ | ⟨result, hsome, hwithin, -, hresult⟩
  · exact ⟨fun hwithin => absurd hwithin hnot, fun _ => hnone⟩
  · refine ⟨fun _ => ⟨result, hsome, MAX_DEPTH + 1, ?_⟩, fun hnot => absurd hwithin hnot⟩
    exact hresult.mono (fun a cell _ hget => Arena.lt_next _ hget) fun _ _ _ hget => hget

/-! ## Sensitive tools -/

section LowerCase

variable {toLowerCase : String → String} {server tool : String}

/-- Only `unifi` has sensitive tools, under any spelling of its name. -/
theorem canonical_of_isSensitiveTool (h : isSensitiveTool toLowerCase server tool = true) :
    canonicalizeServerName toLowerCase server = "unifi" := by
  obtain ⟨-, hsensitive⟩ := of_decide_eq_true h
  by_contra hother
  rw [SERVER_TOOL_CLASSES, if_neg hother] at hsensitive
  split at hsensitive <;> cases hsensitive

/-- With no safe key nothing behind the fields of an object is walked. -/
theorem withinBounds_of_few {fields : List (String × Json)} (h : fields.length ≤ MAX_NODES) :
    WithinBounds [] (.object fields) := by
  have hdepth : fieldsDepth [] fields = 0 := by
    induction fields with
    | nil => rfl
    | cons field fields ih =>
        rw [List.length_cons] at h
        rw [fieldsDepth, if_neg List.not_mem_nil, ih (Nat.le_of_succ_le h)]
  have hnodes : fieldsNodes [] fields = fields.length := by
    clear h hdepth
    induction fields with
    | nil => rfl
    | cons field fields ih =>
        rw [fieldsNodes, if_neg List.not_mem_nil, ih, List.length_cons]
        omega
  rw [WithinBounds, walkedDepth, walkedNodes, hdepth, hnodes]
  exact ⟨Nat.zero_le _, h⟩

/-- What a notice stands for is an object of three fields. -/
theorem fields_of_notice {reason : String}
    (h : StandsFor (failClosed m server tool reason).1
      (failClosed m server tool reason).2.result json) :
    ∃ fields, json = .object fields ∧ fields.length = 3 := by
  obtain ⟨levels, hstands⟩ := h
  have hcell : (m.alloc (notice server tool)).get m.next = some (notice server tool) :=
    Arena.get_alloc_next _ _
  cases levels with
  | zero => exact hstands.elim
  | succ levels =>
      cases json with
      | null | boolean | number | string => exact hstands.elim
      | array items =>
          obtain ⟨-, values, hget, -⟩ := hstands
          rw [failClosed, hcell] at hget
          cases hget
      | object fields =>
          obtain ⟨-, values, hget, hfields⟩ := hstands
          rw [failClosed, hcell] at hget
          cases hget
          exact ⟨fields, rfl, hfields.length_eq.symm⟩

/-- The result of a sensitive tool is returned as it was only if it is its own redaction. -/
theorem own_redaction_of_sensitive (hlower : toLowerCase "unifi" = "unifi")
    (hsensitive : isSensitiveTool toLowerCase server tool = true) (hinput : StandsFor m value json)
    (hsame : StandsFor (redactSensitiveResult toLowerCase server tool value m).1
      (redactSensitiveResult toLowerCase server tool value m).2.result json) :
    WithinBounds (SERVER_SAFE_FIELDS "unifi") json ∧
      redacted (SERVER_SAFE_FIELDS "unifi") false json = json := by
  have hcanon := canonical_of_isSensitiveTool hsensitive
  have hagain : isSensitiveTool toLowerCase "unifi" tool = true := by
    have htrim : Js.trim "unifi" = "unifi" := by decide
    rw [isSensitiveTool, canonicalizeServerName, htrim, hlower]
    rwa [isSensitiveTool, hcanon] at hsensitive
  unfold redactSensitiveResult at hsame
  rw [hcanon] at hsame
  simp only [hagain, if_true] at hsame
  cases value with
  | scalar value =>
      -- a notice does not stand for a scalar
      obtain ⟨fields, rfl, -⟩ := fields_of_notice hsame
      obtain ⟨levels, hstands⟩ := hinput
      cases value <;> cases levels <;> cases hstands
  | reference address =>
      have hnone : SERVER_SAFE_FIELDS "unifi" = [] := rfl
      obtain ⟨hwithin, hbeyond⟩ := redactByAllowlist_answers (SERVER_SAFE_FIELDS "unifi") hinput
      rcases hresult : redactByAllowlist (SERVER_SAFE_FIELDS "unifi") (.reference address) m with
        ⟨m₁, result⟩
      dsimp only at hsame
      rw [hresult] at hsame hwithin hbeyond
      cases result with
      | none =>
          -- a notice is small, so the walk would not have given up on what it stands for
          obtain ⟨fields, rfl, hlength⟩ := fields_of_notice hsame
          have hfew : WithinBounds [] (.object fields) :=
            withinBounds_of_few (hlength ▸ (by decide : 3 ≤ MAX_NODES))
          obtain ⟨_, hsome, -⟩ := hwithin (hnone ▸ hfew)
          cases hsome
      | some result =>
          have hbounds : WithinBounds (SERVER_SAFE_FIELDS "unifi") json := by
            by_contra hnot
            cases hbeyond hnot
          obtain ⟨_, hsome, levels, hredacted⟩ := hwithin hbounds
          obtain rfl := Option.some.inj hsome
          obtain ⟨_, hgiven⟩ := hsame
          exact ⟨hbounds, hredacted.unique hgiven⟩

end LowerCase

/-! ## Secrets -/

/-- Values that differ only in what is not safe have one result. -/
theorem same_result_of_alike {m₁ m₂ : Memory} {value₁ value₂ : Value} {json₁ json₂ : Json}
    (h₁ : StandsFor m₁ value₁ json₁) (h₂ : StandsFor m₂ value₂ json₂)
    (halike : Alike safe false json₁ json₂) (hwithin₁ : WithinBounds safe json₁)
    (hwithin₂ : WithinBounds safe json₂) :
    ∃ result₁ result₂ json, (redactByAllowlist safe value₁ m₁).2 = some result₁ ∧
      (redactByAllowlist safe value₂ m₂).2 = some result₂ ∧
      StandsFor (redactByAllowlist safe value₁ m₁).1 result₁ json ∧
      StandsFor (redactByAllowlist safe value₂ m₂).1 result₂ json := by
  obtain ⟨result₁, hresult₁, hstands₁⟩ := (redactByAllowlist_answers safe h₁).1 hwithin₁
  obtain ⟨result₂, hresult₂, hstands₂⟩ := (redactByAllowlist_answers safe h₂).1 hwithin₂
  rw [← redacted_eq_of_alike halike] at hstands₂
  exact ⟨result₁, result₂, _, hresult₁, hresult₂, hstands₁, hstands₂⟩

/-- Within the bounds a result depends on what is safe only, beyond them there is none; the input
is kept, a redaction is its own, and a sensitive tool returns what it was given only so. -/
theorem secrets_redacted :
    (∀ safe m₁ m₂ value₁ value₂ json₁ json₂, StandsFor m₁ value₁ json₁ →
      StandsFor m₂ value₂ json₂ → Alike safe false json₁ json₂ →
      WithinBounds safe json₁ → WithinBounds safe json₂ →
      ∃ result₁ result₂ json, (redactByAllowlist safe value₁ m₁).2 = some result₁ ∧
        (redactByAllowlist safe value₂ m₂).2 = some result₂ ∧
        StandsFor (redactByAllowlist safe value₁ m₁).1 result₁ json ∧
        StandsFor (redactByAllowlist safe value₂ m₂).1 result₂ json) ∧
    (∀ safe m value json, StandsFor m value json → ¬ WithinBounds safe json →
      (redactByAllowlist safe value m).2 = none) ∧
    (∀ safe m value json result, StandsFor m value json →
      (redactByAllowlist safe value m).2 = some result →
      ∃ left, StandsFor (redactByAllowlist safe value m).1 result left ∧
        WithinBounds safe left ∧ redacted safe false left = left) ∧
    (∀ safe m value a, a < m.next → (redactByAllowlist safe value m).1.get a = m.get a) ∧
    (∀ toLowerCase server tool m value json, toLowerCase "unifi" = "unifi" →
      isSensitiveTool toLowerCase server tool = true → StandsFor m value json →
      StandsFor (redactSensitiveResult toLowerCase server tool value m).1
        (redactSensitiveResult toLowerCase server tool value m).2.result json →
      redacted (SERVER_SAFE_FIELDS "unifi") false json = json) := by
  refine ⟨fun _ _ _ _ _ _ _ h₁ h₂ halike hwithin₁ hwithin₂ =>
      same_result_of_alike h₁ h₂ halike hwithin₁ hwithin₂,
    fun safe _ _ _ h => (redactByAllowlist_answers safe h).2, ?_,
    fun safe m value _ ha => get_redactByAllowlist safe value m ha,
    fun _ _ _ _ _ _ hlower hsensitive hinput hsame =>
      (own_redaction_of_sensitive hlower hsensitive hinput hsame).2⟩
  intro safe m value json result h hresult
  obtain ⟨hwithin, hbeyond⟩ := redactByAllowlist_answers safe h
  -- beyond the bounds there is no result
  have hbounds : WithinBounds safe json := by
    by_contra hnot
    rw [hbeyond hnot] at hresult
    cases hresult
  obtain ⟨result', hsome, hstands⟩ := hwithin hbounds
  obtain rfl := Option.some.inj (hresult.symm.trans hsome)
  have hwalked : walkedDepth safe (redacted safe false json) ≤ walkedDepth safe json ∧
      walkedNodes safe (redacted safe false json) ≤ walkedNodes safe json :=
    walked_redacted false json
  obtain ⟨hdepth, hnodes⟩ := hwalked
  exact ⟨_, hstands, ⟨hdepth.trans hbounds.1, hnodes.trans hbounds.2⟩, redacted_redacted false json⟩

/-- The memory of a network with a name and a key. -/
def withKey (key : String) : Memory :=
  Arena.empty.alloc (.object
    [("name", .scalar (.string "lan")), ("psk", .scalar (.string key))])

def jsonWithKey (key : String) : Json := .object [("name", .string "lan"), ("psk", .string key)]

theorem standsFor_withKey (key : String) :
    StandsFor (withKey key) (.reference 0) (jsonWithKey key) := by
  refine ⟨1, Nat.zero_lt_one, _, rfl, ?_⟩
  exact .cons ⟨rfl, rfl⟩ (.cons ⟨rfl, rfl⟩ .nil)

/-- The key of a network does not survive. -/
theorem secrets_redacted_key :
    ∃ result₁ result₂ json,
      (redactByAllowlist ["name"] (.reference 0) (withKey "secret")).2 = some result₁ ∧
      (redactByAllowlist ["name"] (.reference 0) (withKey "other")).2 = some result₂ ∧
      StandsFor (redactByAllowlist ["name"] (.reference 0) (withKey "secret")).1 result₁ json ∧
      StandsFor (redactByAllowlist ["name"] (.reference 0) (withKey "other")).1 result₂ json := by
  have halike : Alike ["name"] false (jsonWithKey "secret") (jsonWithKey "other") := by
    simp [jsonWithKey, Alike, AlikeFields]
  have hwithin : ∀ key, WithinBounds ["name"] (jsonWithKey key) := by
    intro key
    simp [WithinBounds, jsonWithKey, walkedDepth, fieldsDepth, walkedNodes, fieldsNodes, MAX_DEPTH,
      MAX_NODES]
  exact secrets_redacted.1 _ _ _ _ _ _ _ (standsFor_withKey "secret") (standsFor_withKey "other")
    halike (hwithin _) (hwithin _)

/-- Without any safe key, two arrays that differ in a part of theirs have different redactions:
the number of its items survives. -/
theorem nested_length_survives :
    WithinBounds [] (.array [.array [.string "a"]]) ∧
      WithinBounds [] (.array [.array [.string "a", .string "b"]]) ∧
      redacted [] false (.array [.array [.string "a"]]) ≠
        redacted [] false (.array [.array [.string "a", .string "b"]]) := by
  refine ⟨?_, ?_, ?_⟩
  · simp [WithinBounds, walkedDepth, itemsDepth, walkedNodes, itemsNodes, MAX_DEPTH, MAX_NODES]
  · simp [WithinBounds, walkedDepth, itemsDepth, walkedNodes, itemsNodes, MAX_DEPTH, MAX_NODES]
  · simp [redacted, redactedItems]

end ThinkLocal.Mcp
