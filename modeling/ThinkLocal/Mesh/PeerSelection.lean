import ThinkLocal.Foundation.Comparison
import ThinkLocal.Js.Doubles
import ThinkLocal.Js.Json
import ThinkLocal.Mcp.ServiceRegistry

/-!
# The least loaded agent

`peer-selection.ts`: of the agents that offer a skill the one with the least load is chosen.  The loads
stand in a plain object under the ids that peers give themselves, so an id that the object inherits is
taken for one with data: a property of `Object.prototype`, or one of the three fields of a load if a peer
calls itself `__proto__` and so sets the prototype.

* `get_buildLoadMap`: what the object answers for each id
* `compareLoad_le_iff`: loads are compared in lexicographic order
* `least_loaded_iff`: the choice is right exactly if there is a candidate and none without data has an
  inherited id
-/

namespace ThinkLocal.Mesh

open Foundation Js Mcp

/-! ## The functions -/

/-- What a peer exposes of its load. -/
structure PeerLoad where
  ram_used_percent : Double
  cpu_load : Double
  agent_count : Double

structure PeerEntry where
  agent_id : String
  agent_card : Option Json

structure LeastLoadedResult where
  agentId : String
  reason : String
  byLoad : Bool
deriving DecidableEq

/-- `value?.[key]` for a key that nothing inherits. -/
def property (value : Option Json) (key : String) : Option Json :=
  match value with
  | some (.object fields) => Json.fieldOf fields key
  | _ => none

/-- `Number.isFinite(value)`, with the value; finite numbers are doubles. -/
def finiteNumber : Option Json → Option Double
  | some (.number (.finite q)) => if h : IsDouble q then some ⟨q, h⟩ else none
  | _ => none

/-- The load of an entry, if all three values are finite numbers. -/
def loadOf (p : PeerEntry) : Option PeerLoad :=
  let r := property p.agent_card "resources"
  match finiteNumber (property r "ram_used_percent"), finiteNumber (property r "cpu_load"),
    finiteNumber (property r "agent_count") with
  | some ram, some cpu, some agents => some ⟨ram, cpu, agents⟩
  | _, _, _ => none

/-- A plain object of loads, with its prototype if that was set. -/
structure LoadMap where
  own : InsertionMap String PeerLoad
  proto : Option PeerLoad

/-- What is found under a key. -/
inductive Found
  | undefined
  | load (load : PeerLoad)
  /-- A function, an object or a number without the fields of a load. -/
  | inherited

namespace LoadMap

/-- `map[id] = load`; the key `__proto__` sets the prototype. -/
def set (map : LoadMap) (id : String) (load : PeerLoad) : LoadMap :=
  if id = "__proto__" then { map with proto := some load }
  else { map with own := map.own.set id load }

def loadFields : List String := ["ram_used_percent", "cpu_load", "agent_count"]

/-- `map[id]`. -/
def get (map : LoadMap) (id : String) : Found :=
  match map.own.get id with
  | some load => .load load
  | none =>
      if id = "__proto__" then map.proto.elim .inherited .load
      else if id ∈ objectPrototypeNames ∨ (map.proto.isSome ∧ id ∈ loadFields) then .inherited
      else .undefined

end LoadMap

def Found.isUndefined : Found → Bool
  | undefined => true
  | _ => false

/-- One round of the loop over the peers. -/
def addLoad (map : LoadMap) (p : PeerEntry) : LoadMap :=
  match loadOf p with
  | some load => map.set p.agent_id load
  | none => map

def buildLoadMap (peers : List PeerEntry) : LoadMap := peers.foldl addLoad ⟨.empty, none⟩

/-- A field of what was found. -/
def Found.field (field : PeerLoad → Double) : Found → Option Double
  | load l => some (field l)
  | _ => none

/-- `a - b`. -/
def difference (a b : Option Double) : Number :=
  match a, b with
  | some a, some b => (Number.finite a.val).sub (.finite b.val)
  | _, _ => .nan

def compareLoad (a b : Found) : Number :=
  if a.field PeerLoad.ram_used_percent ≠ b.field PeerLoad.ram_used_percent then
    difference (a.field PeerLoad.ram_used_percent) (b.field PeerLoad.ram_used_percent)
  else if a.field PeerLoad.cpu_load ≠ b.field PeerLoad.cpu_load then
    difference (a.field PeerLoad.cpu_load) (b.field PeerLoad.cpu_load)
  else difference (a.field PeerLoad.agent_count) (b.field PeerLoad.agent_count)

/-- The text of a number in a template. -/
def numberText : Option Double → String
  | some q => String.ofList (literalOf q.val).text
  | none => "undefined"

/-- `compareLoad(a, b) <= 0 ? a : b`. -/
def lessLoaded (loadByAgent : LoadMap) (a b : String) : String :=
  if (compareLoad (loadByAgent.get a) (loadByAgent.get b)).le (.finite 0) then a else b

def pickLeastLoaded (candidateAgentIds : List String) (loadByAgent : LoadMap) :
    Except String LeastLoadedResult :=
  match candidateAgentIds with
  | [] => .error "pickLeastLoaded: keine Kandidaten"
  | first :: _ =>
      match candidateAgentIds.filter fun id => ! (loadByAgent.get id).isUndefined with
      | [] => .ok ⟨first, "keine Resource-Daten — erster Kandidat (fail-open)", false⟩
      | a :: rest =>
          let best := rest.foldl (lessLoaded loadByAgent) a
          let l := loadByAgent.get best
          .ok ⟨best, "least-loaded (RAM " ++ numberText (l.field PeerLoad.ram_used_percent) ++
            "%, CPU " ++ numberText (l.field PeerLoad.cpu_load) ++ "%, agents " ++
            numberText (l.field PeerLoad.agent_count) ++ ")", true⟩

def chooseTargetAgent (candidateAgentIds : List String) (peers : List PeerEntry)
    (self : Option PeerEntry) (explicitTarget : Option String) :
    Except String (Option LeastLoadedResult) :=
  let target := explicitTarget.getD ""
  if target ≠ "" then
    .ok (if target ∈ candidateAgentIds then some ⟨target, "explizit (target_agent)", false⟩ else none)
  else (pickLeastLoaded candidateAgentIds (buildLoadMap (peers ++ self.toList))).map some

/-! ## What is promised -/

/-- The load in the last entry of the id that has one. -/
def dataOf (entries : List PeerEntry) (id : String) : Option PeerLoad :=
  (entries.filterMap fun p => if p.agent_id = id then loadOf p else none).getLast?

/-- RAM, CPU and agents, in lexicographic order. -/
def PeerLoad.triple (l : PeerLoad) : Double ×ₗ Double ×ₗ Double :=
  toLex (l.ram_used_percent, toLex (l.cpu_load, l.agent_count))

/-- The first of the least loaded candidates, or the first one if there is no data. -/
structure LeastLoaded (data : String → Option PeerLoad) (candidates : List String)
    (r : LeastLoadedResult) : Prop where
  least : (∃ id ∈ candidates, (data id).isSome) → r.byLoad = true ∧
    ∃ before after load, candidates = before ++ r.agentId :: after ∧ data r.agentId = some load ∧
      (∀ id ∈ before, ∀ other, data id = some other → load.triple < other.triple) ∧
      ∀ id ∈ after, ∀ other, data id = some other → load.triple ≤ other.triple
  first : (∀ id ∈ candidates, data id = none) →
    candidates.head? = some r.agentId ∧ r.byLoad = false

/-- Without an explicit target the least loaded candidate is chosen, and no candidate without an entry is
treated as having data. -/
structure ChoosesLeastLoaded (candidates : List String) (peers : List PeerEntry)
    (own : Option PeerEntry) : Prop where
  chooses : ∀ explicitTarget : Option String, explicitTarget.getD "" = "" →
    ∃ r, chooseTargetAgent candidates peers own explicitTarget = .ok (some r) ∧
      LeastLoaded (dataOf (peers ++ own.toList)) candidates r
  honest : ∀ id ∈ candidates,
    ((buildLoadMap (peers ++ own.toList)).get id).isUndefined = false →
      (dataOf (peers ++ own.toList) id).isSome

/-- The object of the loads inherits the id. -/
def Inherits (entries : List PeerEntry) (id : String) : Prop :=
  id ∈ objectPrototypeNames ∨
    ((dataOf entries "__proto__").isSome ∧ id ∈ LoadMap.loadFields)

instance (entries : List PeerEntry) : DecidablePred (Inherits entries) :=
  fun _ => inferInstanceAs (Decidable (_ ∨ _))

/-! ## The object -/

variable {entries : List PeerEntry} {candidates : List String} {id : String} {load load' : PeerLoad}

theorem dataOf_append (entries : List PeerEntry) (p : PeerEntry) (id : String) :
    dataOf (entries ++ [p]) id =
      if p.agent_id = id then (loadOf p).or (dataOf entries id) else dataOf entries id := by
  rw [dataOf, List.filterMap_append, List.filterMap_cons, List.filterMap_nil]
  split_ifs with hid
  · cases loadOf p with
    | none => rw [List.append_nil, Option.none_or, dataOf]
    | some load => rw [List.getLast?_append, List.getLast?_singleton, Option.some_or, Option.some_or]
  · rw [List.append_nil, dataOf]

theorem buildLoadMap_append (entries : List PeerEntry) (p : PeerEntry) :
    buildLoadMap (entries ++ [p]) = addLoad (buildLoadMap entries) p := by
  rw [buildLoadMap, List.foldl_append]
  rfl

/-- The prototype is the last load under `__proto__`. -/
theorem proto_buildLoadMap (entries : List PeerEntry) :
    (buildLoadMap entries).proto = dataOf entries "__proto__" := by
  induction entries using List.reverseRecOn with
  | nil => rfl
  | append_singleton entries p ih =>
      rw [buildLoadMap_append, dataOf_append, addLoad, ← ih]
      cases loadOf p with
      | none => simp
      | some load =>
          dsimp only
          rw [LoadMap.set]
          split_ifs <;> rfl

theorem own_buildLoadMap (entries : List PeerEntry) (id : String) :
    (buildLoadMap entries).own.get id = if id = "__proto__" then none else dataOf entries id := by
  induction entries using List.reverseRecOn with
  | nil =>
      split_ifs <;> rfl
  | append_singleton entries p ih =>
      rw [buildLoadMap_append, dataOf_append, addLoad]
      cases loadOf p with
      | none => simpa using ih
      | some load =>
          dsimp only
          rw [LoadMap.set]
          by_cases hproto : p.agent_id = "__proto__"
          · rw [if_pos hproto]
            dsimp only
            rw [ih, hproto]
            split_ifs with hid hsame
            · rfl
            · exact absurd hsame.symm hid
            · rfl
          · rw [if_neg hproto]
            dsimp only
            rw [InsertionMap.get_set, ih]
            by_cases hid : id = p.agent_id
            · subst hid
              rw [if_pos rfl, if_neg hproto, if_pos rfl, Option.some_or]
            · rw [if_neg hid, if_neg (Ne.symm hid)]

/-- What the object answers for an id. -/
theorem get_buildLoadMap (entries : List PeerEntry) (id : String) :
    (buildLoadMap entries).get id =
      match dataOf entries id with
      | some load => .load load
      | none => if Inherits entries id then .inherited else .undefined := by
  rw [LoadMap.get, own_buildLoadMap, proto_buildLoadMap]
  by_cases hproto : id = "__proto__"
  · subst hproto
    have hinherits : Inherits entries "__proto__" := .inl (by decide)
    rw [if_pos rfl]
    cases dataOf entries "__proto__" with
    | none =>
        dsimp only
        rw [if_pos rfl, if_pos hinherits, Option.elim_none]
    | some load => rfl
  · rw [if_neg hproto]
    cases dataOf entries id with
    | none =>
        dsimp only
        rw [if_neg hproto]
        rfl
    | some load => rfl

theorem isUndefined_get_iff :
    ((buildLoadMap entries).get id).isUndefined = false ↔
      (dataOf entries id).isSome ∨ Inherits entries id := by
  rw [get_buildLoadMap]
  cases dataOf entries id with
  | some load => simp [Found.isUndefined]
  | none => by_cases h : Inherits entries id <;> simp [h, Found.isUndefined]

/-! ## The choice -/

/-- The sign of the comparison is that of the lexicographic order. -/
theorem compareLoad_le_iff :
    (compareLoad (.load load) (.load load')).le (.finite 0) = true ↔ load.triple ≤ load'.triple := by
  have hsub (a b : Double) : (difference (some a) (some b)).le (.finite 0) = true ↔ a ≤ b :=
    Number.sub_le_zero_iff a.property b.property
  simp only [compareLoad, Found.field, ne_eq, Option.some.injEq, PeerLoad.triple, Prod.Lex.toLex_le_toLex]
  by_cases hram : load.ram_used_percent = load'.ram_used_percent
  · by_cases hcpu : load.cpu_load = load'.cpu_load
    · simp only [hram, hcpu, hsub, not_true_eq_false, if_false, lt_irrefl, false_or, true_and]
    · simp only [hram, hcpu, hsub, not_true_eq_false, not_false_eq_true, if_false, if_true, lt_irrefl,
        false_or, true_and, false_and, or_false]
      exact (le_iff_lt_or_eq.trans (or_iff_left hcpu))
  · simp only [hram, hsub, not_false_eq_true, if_true, false_and, or_false]
    exact le_iff_lt_or_eq.trans (or_iff_left hram)

/-- How much a candidate is preferred; one without data least. -/
def preference (data : String → Option PeerLoad) (id : String) :
    (WithTop (Double ×ₗ Double ×ₗ Double))ᵒᵈ :=
  OrderDual.toDual ((data id).elim ⊤ fun load => (load.triple : WithTop _))

/-- Of two candidates with data the preferred one is kept. -/
theorem lessLoaded_eq {a b : String} (ha : (dataOf entries a).isSome) (hb : (dataOf entries b).isSome) :
    lessLoaded (buildLoadMap entries) a b =
      if preference (dataOf entries) a < preference (dataOf entries) b then b else a := by
  obtain ⟨load, hload⟩ := Option.isSome_iff_exists.mp ha
  obtain ⟨load', hload'⟩ := Option.isSome_iff_exists.mp hb
  have hpreference : preference (dataOf entries) a < preference (dataOf entries) b ↔
      ¬ load.triple ≤ load'.triple := by
    rw [preference, preference, OrderDual.toDual_lt_toDual, hload, hload', Option.elim_some,
      Option.elim_some, WithTop.coe_lt_coe, not_le]
  simp only [lessLoaded, get_buildLoadMap, hload, hload', compareLoad_le_iff, hpreference, ite_not]

/-- Among candidates of which those with data are counted the first of the least loaded is picked. -/
theorem pickLeastLoaded_right (hne : candidates ≠ [])
    (hcounted : ∀ id ∈ candidates, ((buildLoadMap entries).get id).isUndefined = false →
      (dataOf entries id).isSome) :
    ∃ r, pickLeastLoaded candidates (buildLoadMap entries) = .ok r ∧
      LeastLoaded (dataOf entries) candidates r := by
  obtain ⟨first, rest, rfl⟩ := List.exists_cons_of_ne_nil hne
  have hfilter : (first :: rest).filter (fun id => ! ((buildLoadMap entries).get id).isUndefined) =
      (first :: rest).filter fun id => (dataOf entries id).isSome := by
    refine List.filter_congr fun id hid => ?_
    rw [Bool.eq_iff_iff, Bool.not_eq_true']
    exact ⟨hcounted id hid, fun h => isUndefined_get_iff.mpr (.inl h)⟩
  rw [pickLeastLoaded, hfilter]
  -- without data on anyone the first candidate is taken
  cases hdata : (first :: rest).filter fun id => (dataOf entries id).isSome with
  | nil =>
      rw [List.filter_eq_nil_iff] at hdata
      refine ⟨_, rfl, ?_, fun _ => ⟨rfl, rfl⟩⟩
      rintro ⟨id, hid, hsome⟩
      exact absurd hsome (hdata id hid)
  | cons a counted =>
      have hsome {id : String} (hid : id ∈ a :: counted) : (dataOf entries id).isSome := by
        rw [← hdata] at hid
        exact (List.mem_filter.mp hid).2
      -- the fold keeps the first of the best so far
      have hbest : IsFirstMax (preference (dataOf entries)) (a :: counted)
          (counted.foldl (lessLoaded (buildLoadMap entries)) a) :=
        isFirstMax_foldl fun best hbest b hb =>
          lessLoaded_eq (hsome hbest) (hsome (List.mem_cons_of_mem _ hb))
      refine ⟨_, rfl, fun _ => ⟨rfl, ?_⟩, fun hnone => ?_⟩
      · obtain ⟨load, hload⟩ := Option.isSome_iff_exists.mp (hsome hbest.mem)
        rw [← hdata] at hbest
        -- those without data lie between the others, and the order stays
        obtain ⟨before, after, heq, hbefore, hafter⟩ := hbest.of_filter
        refine ⟨before, after, load, heq, hload, fun id hid other hother => ?_,
          fun id hid other hother => ?_⟩
        · have hlt := hbefore id hid (by rw [hother]; rfl)
          rw [preference, preference, OrderDual.toDual_lt_toDual, hload, hother, Option.elim_some,
            Option.elim_some, WithTop.coe_lt_coe] at hlt
          exact hlt
        · have hle := hafter id hid (by rw [hother]; rfl)
          rw [preference, preference, OrderDual.toDual_le_toDual, hload, hother, Option.elim_some,
            Option.elim_some, WithTop.coe_le_coe] at hle
          exact hle
      · have hmem : a ∈ first :: rest :=
          (List.mem_filter.mp (hdata ▸ List.mem_cons_self : a ∈ (first :: rest).filter _)).1
        have hnever := hsome (List.mem_cons_self (a := a))
        rw [hnone a hmem] at hnever
        cases hnever

/-- The choice is right exactly if there is a candidate and none without data has an inherited id. -/
theorem least_loaded_iff (candidates : List String) (peers : List PeerEntry)
    (own : Option PeerEntry) :
    ChoosesLeastLoaded candidates peers own ↔ candidates ≠ [] ∧
      ∀ id ∈ candidates, Inherits (peers ++ own.toList) id →
        (dataOf (peers ++ own.toList) id).isSome := by
  constructor
  · intro h
    refine ⟨?_, fun id hid hinherits => h.honest id hid (isUndefined_get_iff.mpr (.inr hinherits))⟩
    rintro rfl
    obtain ⟨r, hr, -⟩ := h.chooses none rfl
    cases hr
  · rintro ⟨hne, hinherited⟩
    have hcounted : ∀ id ∈ candidates,
        ((buildLoadMap (peers ++ own.toList)).get id).isUndefined = false →
          (dataOf (peers ++ own.toList) id).isSome := fun id hid hfound =>
      (isUndefined_get_iff.mp hfound).elim (fun h => h) (hinherited id hid)
    refine ⟨fun explicitTarget hnone => ?_, hcounted⟩
    obtain ⟨r, hr, hright⟩ := pickLeastLoaded_right hne hcounted
    refine ⟨r, ?_, hright⟩
    rw [chooseTargetAgent, hnone, hr]
    rfl

/-- An entry with the three values. -/
def entryOf (id : String) (ram cpu agents : ℕ) : PeerEntry where
  agent_id := id
  agent_card := some (.object [("resources", .object [("ram_used_percent", .number (.finite ram)),
    ("cpu_load", .number (.finite cpu)), ("agent_count", .number (.finite agents))])])

/-- The candidate `constructor` has no entry and is chosen by its load. -/
theorem inherited_id_chosen :
    chooseTargetAgent ["a", "constructor"] [entryOf "a" 10 10 1] none none =
      .ok (some ⟨"constructor", "least-loaded (RAM undefined%, CPU undefined%, agents undefined)",
        true⟩) ∧
      dataOf [entryOf "a" 10 10 1] "constructor" = none ∧
      (dataOf [entryOf "a" 10 10 1] "a").isSome :=
  ⟨by decide +kernel, by decide +kernel, by decide +kernel⟩

end ThinkLocal.Mesh
