import ThinkLocal.Foundation.Ranking
import ThinkLocal.Js.Decimal
import ThinkLocal.Registry.CapabilityRegistry

/-!
# The task router

`TaskRouter.route` adds up points for the kind of the match, the health, the place and the load of
each candidate and chooses one with the most points.

* `Respects` states the priorities on their own: what is available comes before what is offline, and
  an exact match before a prefix match.
* The points of two candidates that differ in availability, or in the kind of the match, are compared
  once, in `outdoes_iff` and `score_of_inexact`.
* `priorities_law`: the priorities hold for every outcome of the tie-break exactly where no offline
  candidate keeps up with the available ones and no prefix match with the exact ones.
-/

namespace ThinkLocal.Tasks.Routing

open Foundation ThinkLocal.Js ThinkLocal.Registry

/-! ## The router -/

structure RoutableAgent where
  agentId : String
  host : String
  port : Nat
  endpoint : String
  cpuPercent : Option ℚ
  isLocal : Bool

structure Candidate where
  agent : RoutableAgent
  capability : Capability
  score : ℤ

structure RouteResult where
  agent : RoutableAgent
  capability : Capability
  reason : String
  candidates : List Candidate

/-- The outcomes of `Math.floor(Math.random() * n)`. -/
structure TieBreak where
  index : Nat → Nat
  lt : ∀ n, 0 < n → index n < n

/-- `c.skill_id === skillId`, or one of them starts with the other one and a dot. -/
def isMatch (skillId : String) (c : Capability) : Bool :=
  c.skill_id = skillId ∨ (skillId ++ ".").toList <+: c.skill_id.toList ∨
    (c.skill_id ++ ".").toList <+: skillId.toList

/-- `Math.floor(cpuPercent / 10)`; a tenth of a finite number is finite. -/
def tenths (cpuPercent : ℚ) : ℤ :=
  match roundDouble (cpuPercent / 10) with
  | .finite q => ⌊q⌋
  | _ => 0

/-- The points for the load, at most 10. -/
def loadPoints (agent : RoutableAgent) : ℤ :=
  match agent.cpuPercent with
  | none => 0
  | some cpuPercent => max 0 (10 - tenths cpuPercent)

def healthPoints : CapabilityHealth → ℤ
  | .healthy => 30
  | .degraded => 10
  | .offline => 0

def scoreOf (skillId localAgentId : String) (cap : Capability) (agent : RoutableAgent) : ℤ :=
  (if cap.skill_id = skillId then 100 else 50) + healthPoints cap.health +
    (if cap.agent_id = localAgentId then 20 else 0) + loadPoints agent

/-- The matches of known agents with their scores. -/
def candidatesOf (skillId : String) (capabilities : List Capability)
    (agents : InsertionMap String RoutableAgent) (localAgentId : String) : List Candidate :=
  (capabilities.filter (isMatch skillId)).filterMap fun cap =>
    (agents.get cap.agent_id).map fun agent =>
      ⟨agent, cap, scoreOf skillId localAgentId cap agent⟩

def reasonOf (best : Candidate) : String :=
  if best.agent.isLocal then
    "Lokal (" ++ best.capability.skill_id ++ ", Score: " ++ toString best.score ++ ")"
  else
    "Remote " ++ best.agent.host ++ ":" ++ toString best.agent.port ++ " (" ++
      best.capability.skill_id ++ ", Score: " ++ toString best.score ++ ")"

def resultOf (candidates : List Candidate) (best : Candidate) : RouteResult where
  agent := best.agent
  capability := best.capability
  reason := reasonOf best
  candidates := ranked Candidate.score candidates

/-- `none` is `null`. -/
def route (random : TieBreak) (skillId : String) (capabilities : List Capability)
    (agents : InsertionMap String RoutableAgent) (localAgentId : String) : Option RouteResult :=
  let candidates := candidatesOf skillId capabilities agents localAgentId
  let topCandidates := leaders Candidate.score candidates
  topCandidates[random.index topCandidates.length]?.map (resultOf candidates)

/-! ## The priorities -/

/-- One id is the other one, a dot and more. -/
def Extends (long short : String) : Prop := ∃ rest, long = short ++ "." ++ rest

/-- A matching capability of a known agent, with its score. -/
structure IsCandidate (skillId : String) (capabilities : List Capability)
    (agents : InsertionMap String RoutableAgent) (localAgentId : String) (c : Candidate) :
    Prop where
  offered : c.capability ∈ capabilities
  fits : c.capability.skill_id = skillId ∨ Extends c.capability.skill_id skillId ∨
    Extends skillId c.capability.skill_id
  known : agents.get c.capability.agent_id = some c.agent
  score_eq : c.score = scoreOf skillId localAgentId c.capability c.agent

def Candidate.Available (c : Candidate) : Prop := c.capability.health ≠ .offline

def Candidate.Exact (skillId : String) (c : Candidate) : Prop := c.capability.skill_id = skillId

def Candidate.Local (localAgentId : String) (c : Candidate) : Prop :=
  c.capability.agent_id = localAgentId

/-- What a route has to be among the candidates `P`. -/
structure Respects (skillId : String) (P : Candidate → Prop) (result : Option RouteResult) :
    Prop where
  null : result = none ↔ ¬ ∃ c, P c
  chosen : ∀ r ∈ result, ∃ best, P best ∧ best ∈ r.candidates ∧
    best.capability = r.capability ∧ best.agent = r.agent ∧
    (∀ c, P c → c.score ≤ best.score) ∧
    ((∃ c, P c ∧ c.Available) → best.Available) ∧
    ((∃ c, P c ∧ c.Available ∧ c.Exact skillId) → best.Exact skillId)

instance (skillId : String) (c : Candidate) : Decidable (c.Exact skillId) :=
  inferInstanceAs (Decidable (_ = _))

instance (localAgentId : String) (c : Candidate) : Decidable (c.Local localAgentId) :=
  inferInstanceAs (Decidable (_ = _))

/-- An available candidate is ahead of an offline one.  A better health outweighs the place or the
load, but a degraded one does not outweigh the place, and between a remote and a local one it needs
all of the load. -/
def Outdoes (skillId localAgentId : String) (c o : Candidate) : Prop :=
  if c.Exact skillId ↔ o.Exact skillId then
    match c.capability.health with
    | .healthy => ¬ o.Local localAgentId ∨ c.Local localAgentId ∨
        loadPoints o.agent < loadPoints c.agent + 10
    | .degraded => (c.Local localAgentId ∧ ¬ o.Local localAgentId) ∨
        ((c.Local localAgentId ↔ o.Local localAgentId) ∧
          loadPoints o.agent < loadPoints c.agent + 10)
    | .offline => False
  else
    c.Exact skillId ∨ (c.capability.health = .healthy ∧ c.Local localAgentId ∧
      ¬ o.Local localAgentId ∧ loadPoints o.agent < loadPoints c.agent)

/-- Neither an offline candidate nor a prefix match keeps up. -/
structure Ordered (skillId localAgentId : String) (P : Candidate → Prop) : Prop where
  offline : (∃ c, P c ∧ c.Available) → ∀ o, P o → ¬ o.Available →
    ∃ c, P c ∧ c.Available ∧ Outdoes skillId localAgentId c o
  inexact : (∃ c, P c ∧ c.Available ∧ c.Exact skillId) → ∀ p, P p → ¬ p.Exact skillId →
    p.capability.health = .healthy → p.Local localAgentId → loadPoints p.agent = 10 →
    ∃ c, P c ∧ c.Available ∧ c.Exact skillId ∧
      (c.capability.health = .healthy ∨ c.Local localAgentId ∨ 0 < loadPoints c.agent)

/-! ## Points -/

section Points

variable {skillId localAgentId : String} {capabilities : List Capability}
  {agents : InsertionMap String RoutableAgent} {c o p : Candidate}

theorem nearestDouble_nonneg {n d : Nat} {q : ℚ} (h : nearestDouble n d = some q) : 0 ≤ q := by
  unfold nearestDouble at h
  dsimp only at h
  split_ifs at h
  · exact (Option.some.inj h).le
  · obtain rfl := Option.some.inj h
    positivity

theorem tenths_nonneg {cpuPercent : ℚ} (h : 0 ≤ cpuPercent) : 0 ≤ tenths cpuPercent := by
  have hquot : ¬ cpuPercent / 10 < 0 := not_lt.mpr (by positivity)
  unfold tenths roundDouble
  split
  · next q hq =>
      split at hq
      · next m hm =>
          rw [if_neg hquot] at hq
          obtain rfl := Number.finite.inj hq
          exact Int.floor_nonneg.mpr (nearestDouble_nonneg hm)
      · rw [if_neg hquot] at hq
        cases hq
  · exact le_rfl

/-- The load that the agents report is not negative. -/
def InRange (agents : InsertionMap String RoutableAgent) : Prop :=
  ∀ agentId agent, agents.get agentId = some agent → ∀ q ∈ agent.cpuPercent, 0 ≤ q ∧ q ≤ 100

theorem loadPoints_mem {agent : RoutableAgent}
    (h : ∀ q ∈ agent.cpuPercent, (0 : ℚ) ≤ q ∧ q ≤ 100) :
    0 ≤ loadPoints agent ∧ loadPoints agent ≤ 10 := by
  unfold loadPoints
  cases hcpu : agent.cpuPercent with
  | none => exact ⟨le_rfl, by norm_num⟩
  | some q =>
      have htenths : 0 ≤ tenths q := tenths_nonneg (h q hcpu).1
      dsimp only
      omega

theorem IsCandidate.loadPoints_mem (hagents : InRange agents)
    (h : IsCandidate skillId capabilities agents localAgentId c) :
    0 ≤ loadPoints c.agent ∧ loadPoints c.agent ≤ 10 :=
  Routing.loadPoints_mem (hagents _ _ h.known)

theorem IsCandidate.score (h : IsCandidate skillId capabilities agents localAgentId c) :
    c.score = (if c.Exact skillId then 100 else 50) + healthPoints c.capability.health +
      (if c.Local localAgentId then 20 else 0) + loadPoints c.agent := h.score_eq

/-- An offline candidate stays behind an available one exactly where the latter outdoes it. -/
theorem outdoes_iff (hagents : InRange agents)
    (hc : IsCandidate skillId capabilities agents localAgentId c)
    (ho : IsCandidate skillId capabilities agents localAgentId o)
    (havail : c.Available) (hoff : ¬ o.Available) :
    Outdoes skillId localAgentId c o ↔ o.score < c.score := by
  have hcload := hc.loadPoints_mem hagents
  have holoff := ho.loadPoints_mem hagents
  have hoffline : o.capability.health = .offline := not_not.mp hoff
  rw [hc.score, ho.score, hoffline]
  unfold Outdoes
  cases hhealth : c.capability.health with
  | offline => exact absurd hhealth havail
  | healthy | degraded =>
      by_cases hce : c.Exact skillId <;> by_cases hoe : o.Exact skillId <;>
        by_cases hcl : c.Local localAgentId <;> by_cases hol : o.Local localAgentId <;>
        simp only [hce, hoe, hcl, hol, healthPoints, if_true, if_false, true_iff, iff_true,
          not_true_eq_false, not_false_eq_true, true_and, false_and, and_true, and_false, or_true,
          true_or, false_or, or_false, reduceCtorEq, iff_self, false_iff, not_lt] <;> omega

/-- A prefix match has at most the points of an available exact match without any preference. -/
theorem score_of_inexact (hagents : InRange agents)
    (hp : IsCandidate skillId capabilities agents localAgentId p) (hinexact : ¬ p.Exact skillId) :
    p.score ≤ 110 ∧ (p.score = 110 ↔ p.capability.health = .healthy ∧ p.Local localAgentId ∧
      loadPoints p.agent = 10) := by
  have hload := hp.loadPoints_mem hagents
  rw [hp.score, if_neg hinexact]
  cases p.capability.health <;> by_cases hlocal : p.Local localAgentId <;>
    simp only [hlocal, healthPoints, if_true, if_false, true_and, false_and, reduceCtorEq,
      iff_false] <;> omega

theorem score_of_exact (hagents : InRange agents)
    (hc : IsCandidate skillId capabilities agents localAgentId c) (havail : c.Available)
    (hexact : c.Exact skillId) :
    110 ≤ c.score ∧ (110 < c.score ↔ c.capability.health = .healthy ∨ c.Local localAgentId ∨
      0 < loadPoints c.agent) := by
  have hload := hc.loadPoints_mem hagents
  rw [hc.score, if_pos hexact]
  cases hhealth : c.capability.health with
  | offline => exact absurd hhealth havail
  | healthy | degraded =>
      by_cases hlocal : c.Local localAgentId <;>
        simp only [hlocal, healthPoints, if_true, if_false, true_or, or_true, false_or,
          reduceCtorEq, iff_true] <;> omega

end Points

/-! ## The chosen candidate -/

section Chosen

variable {skillId localAgentId : String} {capabilities : List Capability}
  {agents : InsertionMap String RoutableAgent} {c best : Candidate}

theorem extends_iff {long short : String} :
    Extends long short ↔ (short ++ ".").toList <+: long.toList := by
  constructor
  · rintro ⟨rest, rfl⟩
    exact ⟨rest.toList, String.toList_append.symm⟩
  · rintro ⟨rest, hrest⟩
    refine ⟨String.ofList rest, String.toList_injective ?_⟩
    rw [String.toList_append, String.toList_ofList, hrest]

theorem mem_candidatesOf : c ∈ candidatesOf skillId capabilities agents localAgentId ↔
    IsCandidate skillId capabilities agents localAgentId c := by
  unfold candidatesOf
  simp only [List.mem_filterMap, List.mem_filter, Option.map_eq_some_iff, isMatch, ← extends_iff,
    decide_eq_true_eq]
  constructor
  · rintro ⟨cap, ⟨hmem, hfits⟩, agent, hagent, rfl⟩
    exact ⟨hmem, hfits, hagent, rfl⟩
  · rintro ⟨hmem, hfits, hagent, hscore⟩
    exact ⟨c.capability, ⟨hmem, hfits⟩, c.agent, hagent, by rw [← hscore]⟩

/-- The best candidates of a route. -/
def IsBest (P : Candidate → Prop) (best : Candidate) : Prop :=
  P best ∧ ∀ c, P c → c.score ≤ best.score

theorem mem_topCandidates :
    best ∈ leaders Candidate.score (candidatesOf skillId capabilities agents localAgentId) ↔
      IsBest (IsCandidate skillId capabilities agents localAgentId) best := by
  rw [mem_leaders, mem_candidatesOf]
  simp only [mem_candidatesOf, IsBest]

theorem route_eq_none_iff (random : TieBreak) :
    route random skillId capabilities agents localAgentId = none ↔
      ¬ ∃ c, IsCandidate skillId capabilities agents localAgentId c := by
  simp only [route, Option.map_eq_none_iff, List.getElem?_eq_none_iff, ← mem_candidatesOf]
  constructor
  · rintro hlength ⟨c, hc⟩
    have hne := leaders_ne_nil Candidate.score (List.ne_nil_of_mem hc)
    exact absurd (random.lt _ (List.length_pos_iff.mpr hne)) (not_lt.mpr hlength)
  · intro hnone
    have hnil : candidatesOf skillId capabilities agents localAgentId = [] :=
      List.eq_nil_iff_forall_not_mem.mpr fun c hc => hnone ⟨c, hc⟩
    rw [hnil, leaders_nil]
    exact Nat.zero_le _

/-- Whatever the tie-break is, a best candidate is chosen. -/
theorem best_of_route {random : TieBreak} {r : RouteResult}
    (h : r ∈ route random skillId capabilities agents localAgentId) :
    ∃ best, IsBest (IsCandidate skillId capabilities agents localAgentId) best ∧
      best ∈ r.candidates ∧ best.capability = r.capability ∧ best.agent = r.agent := by
  obtain ⟨best, hget, rfl⟩ := Option.map_eq_some_iff.mp h
  have hbest := mem_topCandidates.mp (List.mem_of_getElem? hget)
  exact ⟨best, hbest, (mem_ranked _).mpr (mem_candidatesOf.mpr hbest.1), rfl, rfl⟩

/-- The tie-break that takes the element `i` of every list that has one. -/
def TieBreak.taking (i : Nat) : TieBreak where
  index n := if i < n then i else 0
  lt n hn := by
    split_ifs with hi
    · exact hi
    · exact hn

/-- Each best candidate is chosen by some tie-break. -/
theorem route_of_best
    (h : IsBest (IsCandidate skillId capabilities agents localAgentId) best) :
    ∃ random, route random skillId capabilities agents localAgentId =
      some (resultOf (candidatesOf skillId capabilities agents localAgentId) best) := by
  obtain ⟨i, hi, hget⟩ := List.mem_iff_getElem.mp (mem_topCandidates.mpr h)
  refine ⟨.taking i, ?_⟩
  simp only [route, TieBreak.taking, if_pos hi, List.getElem?_eq_getElem hi, hget, Option.map_some]

end Chosen

/-! ## The law -/

section Law

variable {skillId localAgentId : String} {capabilities : List Capability}
  {agents : InsertionMap String RoutableAgent} {best : Candidate}

/-- The two priorities for one candidate. -/
def Preferred (skillId : String) (P : Candidate → Prop) (best : Candidate) : Prop :=
  ((∃ c, P c ∧ c.Available) → best.Available) ∧
    ((∃ c, P c ∧ c.Available ∧ c.Exact skillId) → best.Exact skillId)

theorem preferred_of_ordered (hagents : InRange agents)
    (hordered : Ordered skillId localAgentId
      (IsCandidate skillId capabilities agents localAgentId))
    (hbest : IsBest (IsCandidate skillId capabilities agents localAgentId) best) :
    Preferred skillId (IsCandidate skillId capabilities agents localAgentId) best := by
  obtain ⟨hcand, hmax⟩ := hbest
  constructor
  · intro havail
    by_contra hoff
    obtain ⟨c, hc, hcavail, houtdoes⟩ := hordered.offline havail best hcand hoff
    have hlt := (outdoes_iff hagents hc hcand hcavail hoff).mp houtdoes
    exact absurd (hmax c hc) (not_le.mpr hlt)
  · rintro ⟨e, he, heavail, heexact⟩
    by_contra hinexact
    -- only the best of the prefix matches reaches the least of the available exact ones
    obtain ⟨hle, hiff⟩ := score_of_inexact hagents hcand hinexact
    have hexact : 110 ≤ best.score := (score_of_exact hagents he heavail heexact).1.trans (hmax e he)
    obtain ⟨hhealth, hlocal, hload⟩ := hiff.mp (le_antisymm hle hexact)
    obtain ⟨c, hc, hcavail, hcexact, hmore⟩ :=
      hordered.inexact ⟨e, he, heavail, heexact⟩ best hcand hinexact hhealth hlocal hload
    have hlt := (score_of_exact hagents hc hcavail hcexact).2.mpr hmore
    have hbound := hmax c hc
    omega

theorem ordered_of_preferred (hagents : InRange agents)
    (hpreferred : ∀ best, IsBest (IsCandidate skillId capabilities agents localAgentId) best →
      Preferred skillId (IsCandidate skillId capabilities agents localAgentId) best)
    (hexists : ∀ c, IsCandidate skillId capabilities agents localAgentId c →
      ∃ best, IsBest (IsCandidate skillId capabilities agents localAgentId) best) :
    Ordered skillId localAgentId (IsCandidate skillId capabilities agents localAgentId) := by
  constructor
  · intro havail o ho hoff
    obtain ⟨best, hbest⟩ := hexists o ho
    have hbavail := (hpreferred best hbest).1 havail
    refine ⟨best, hbest.1, hbavail, (outdoes_iff hagents hbest.1 ho hbavail hoff).mpr ?_⟩
    -- an offline candidate that draws level is a best one itself
    by_contra hnot
    have hobest : IsBest (IsCandidate skillId capabilities agents localAgentId) o :=
      ⟨ho, fun c hc => (hbest.2 c hc).trans (not_lt.mp hnot)⟩
    exact hoff ((hpreferred o hobest).1 havail)
  · intro hexact p hp hinexact hhealth hlocal hload
    obtain ⟨best, hbest⟩ := hexists p hp
    have hbavail : best.Available :=
      (hpreferred best hbest).1 (hexact.imp fun _ hc => ⟨hc.1, hc.2.1⟩)
    have hbexact := (hpreferred best hbest).2 hexact
    refine ⟨best, hbest.1, hbavail, hbexact,
      (score_of_exact hagents hbest.1 hbavail hbexact).2.mp ?_⟩
    have hscore : p.score = 110 :=
      (score_of_inexact hagents hp hinexact).2.mpr ⟨hhealth, hlocal, hload⟩
    by_contra hnot
    have hpbest : IsBest (IsCandidate skillId capabilities agents localAgentId) p :=
      ⟨hp, fun c hc => by have := hbest.2 c hc; omega⟩
    exact hinexact ((hpreferred p hpbest).2 hexact)

/-- A route keeps the priorities under every outcome of the tie-break exactly where no offline
candidate keeps up with the available ones, and no prefix match with the available exact ones. -/
theorem priorities_law (hagents : InRange agents) :
    (∀ random, Respects skillId (IsCandidate skillId capabilities agents localAgentId)
      (route random skillId capabilities agents localAgentId)) ↔
      Ordered skillId localAgentId
        (IsCandidate skillId capabilities agents localAgentId) := by
  constructor
  · intro hrespects
    apply ordered_of_preferred hagents
    · intro best hbest
      obtain ⟨random, hroute⟩ := route_of_best hbest
      obtain ⟨chosen, _, _, hchosen, _, _, havail, hexact⟩ := (hrespects random).chosen _ hroute
      -- the priorities are about the capability, which the chosen candidate shares
      have hcap : chosen.capability = best.capability := hchosen
      unfold Candidate.Available at havail
      unfold Candidate.Exact at hexact
      rw [hcap] at havail hexact
      exact ⟨havail, hexact⟩
    · intro c hc
      have hne := leaders_ne_nil Candidate.score
        (List.ne_nil_of_mem (mem_candidatesOf.mpr hc))
      obtain ⟨best, hbest⟩ := List.exists_mem_of_ne_nil _ hne
      exact ⟨best, mem_topCandidates.mp hbest⟩
  · intro hordered random
    refine ⟨route_eq_none_iff random, fun r hr => ?_⟩
    obtain ⟨best, hbest, hmem, hcap, hagent⟩ := best_of_route hr
    obtain ⟨havail, hexact⟩ := preferred_of_ordered hagents hordered hbest
    exact ⟨best, hbest.1, hmem, hcap, hagent, hbest.2, havail, hexact⟩

end Law

/-! ## Runs -/

/-- A capability that offers the skill `db`. -/
def sampleCapability (agentId : String) (health : CapabilityHealth) : Capability where
  skill_id := "db"
  version := "1.0.0"
  description := ""
  agent_id := agentId
  health := health
  trust_level := 1
  updated_at := ""
  category := "database"
  permissions := []

def sampleAgent (agentId : String) (cpuPercent : Option ℚ) (isLocal : Bool) : RoutableAgent where
  agentId := agentId
  host := "10.0.0.1"
  port := 9440
  endpoint := "https://10.0.0.1:9440"
  cpuPercent := cpuPercent
  isLocal := isLocal

/-- An idle local agent and a remote one that reports no load. -/
def sampleAgents : InsertionMap String RoutableAgent :=
  (InsertionMap.empty.set "here" (sampleAgent "here" (some 0) true)).set "there"
    (sampleAgent "there" none false)

theorem inRange_sampleAgents : InRange sampleAgents := by
  intro agentId agent hget
  simp only [sampleAgents, InsertionMap.get_set, InsertionMap.get_empty] at hget
  split_ifs at hget
  · obtain rfl := Option.some.inj hget
    intro q hq
    cases hq
  · obtain rfl := Option.some.inj hget
    intro q hq
    obtain rfl := Option.some.inj hq
    norm_num

/-- The two agents offer the skill. -/
def offers (here there : CapabilityHealth) : List Capability :=
  [sampleCapability "here" here, sampleCapability "there" there]

/-- With healthy exact matches only, the priorities are kept, also by the last element. -/
theorem priorities_law_healthy :
    Respects "db" (IsCandidate "db" (offers .healthy .healthy) sampleAgents "here")
      (route (.taking 1) "db" (offers .healthy .healthy) sampleAgents "here") := by
  refine (priorities_law inRange_sampleAgents).mpr ?_ (.taking 1)
  constructor
  · intro _ o ho hoff
    have hoffline : o.capability.health = .offline := not_not.mp hoff
    rcases List.mem_pair.mp ho.offered with h | h <;>
      · rw [h] at hoffline
        cases hoffline
  · intro _ p hp hinexact
    rcases List.mem_pair.mp hp.offered with h | h <;>
      exact absurd (congrArg Capability.skill_id h) hinexact

/-- The idle local agent is offline and is chosen before the degraded remote one. -/
theorem offline_agent_chosen : ∃ random r,
    route random "db" (offers .offline .degraded) sampleAgents "here" = some r ∧
    r.capability.health = .offline ∧
    ¬ Respects "db" (IsCandidate "db" (offers .offline .degraded) sampleAgents "here")
      (route random "db" (offers .offline .degraded) sampleAgents "here") := by
  have hlocal : IsCandidate "db" (offers .offline .degraded) sampleAgents "here"
      ⟨sampleAgent "here" (some 0) true, sampleCapability "here" .offline, 130⟩ :=
    ⟨List.mem_cons_self, .inl rfl, rfl, by decide +kernel⟩
  have hremote : IsCandidate "db" (offers .offline .degraded) sampleAgents "here"
      ⟨sampleAgent "there" none false, sampleCapability "there" .degraded, 110⟩ :=
    ⟨List.mem_cons_of_mem _ List.mem_cons_self, .inl rfl, rfl, by decide +kernel⟩
  have hbest : IsBest (IsCandidate "db" (offers .offline .degraded) sampleAgents "here")
      ⟨sampleAgent "here" (some 0) true, sampleCapability "here" .offline, 130⟩ := by
    refine ⟨hlocal, fun c hc => ?_⟩
    have hknown := hc.known
    rw [hc.score_eq]
    rcases List.mem_pair.mp hc.offered with h | h
    · rw [h] at hknown ⊢
      rw [← show sampleAgent "here" (some 0) true = c.agent from Option.some.inj hknown]
      decide +kernel
    · rw [h] at hknown ⊢
      rw [← show sampleAgent "there" none false = c.agent from Option.some.inj hknown]
      decide +kernel
  obtain ⟨random, hroute⟩ := route_of_best hbest
  refine ⟨random, _, hroute, rfl, fun hrespects => ?_⟩
  obtain ⟨best, _, _, hcap, _, _, havail, _⟩ := hrespects.chosen _ hroute
  have hoffline : best.capability.health = .offline := congrArg (fun cap => cap.health) hcap
  have hdegraded : Candidate.Available
      ⟨sampleAgent "there" none false, sampleCapability "there" .degraded, 110⟩ :=
    fun h => nomatch h
  exact havail ⟨_, hremote, hdegraded⟩ hoffline

end ThinkLocal.Tasks.Routing
