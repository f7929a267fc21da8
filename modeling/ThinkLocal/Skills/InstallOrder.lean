import ThinkLocal.Foundation.InsertionMap
import ThinkLocal.Foundation.Logs

/-!
# The order of installation

`resolveInstallOrder` visits the skills depth first.  A skill is in `visiting` while its dependencies are
visited, and in `visited` and `order` after that; a skill that is met while it is in `visiting` closes a
cycle, and the search ends.

* `visit_answers`: what one call of `visit` answers and leaves behind, by induction on the calls that may
  be open at the same time; one more than there are keys are enough
* `resolveInstallOrder_sorts`: the answer for the whole map
-/

namespace ThinkLocal.Skills

open Foundation Relation

/-- The three collections of one call of `resolveInstallOrder`. -/
structure Search where
  visited : InsertionSet String
  visiting : InsertionSet String
  order : List String

namespace Search

def empty : Search := ⟨.empty, .empty, []⟩

/-- A loop over skills, which ends at the first that `call` answers with `false`. -/
def visitEach (call : Search → String → Option (Bool × Search)) (s : Search) :
    List String → Option (Bool × Search)
  | [] => some (true, s)
  | skillId :: rest =>
      match call s skillId with
      | some (true, s') => visitEach call s' rest
      | stopped => stopped

variable (skillDeps : InsertionMap String (List String))

/-- `skillDeps.get(skillId) ?? []`. -/
def dependenciesOf (skillId : String) : List String := (skillDeps.get skillId).getD []

/-- The answer and the collections after it; `none` if more than `calls` calls would be open. -/
def visit : Nat → Search → String → Option (Bool × Search)
  | 0, _, _ => none
  | calls + 1, s, skillId =>
      if skillId ∈ s.visited then some (true, s)
      else if skillId ∈ s.visiting then some (false, s)
      else
        match visitEach (visit calls) { s with visiting := s.visiting.add skillId }
            (dependenciesOf skillDeps skillId) with
        | some (true, s') => some (true, ⟨s'.visited.add skillId, s'.visiting.delete skillId,
            s'.order ++ [skillId]⟩)
        | stopped => stopped

end Search

open Search

/-- The result, `some none` for `null`; `none` if the calls of `visit` were not enough. -/
def resolveInstallOrder (skillDeps : InsertionMap String (List String)) :
    Option (Option (List String)) :=
  (visitEach (visit skillDeps (skillDeps.size + 1)) .empty skillDeps.keys).map fun answer =>
    if answer.1 then some answer.2.order else none

namespace Search

variable {skillDeps : InsertionMap String (List String)} {s s' : Search} {ids : List String}
  {skillId : String}

/-- The order is topological and has the visited skills, and no others are being visited. -/
structure Sound (skillDeps : InsertionMap String (List String)) (s : Search) : Prop where
  visited : ∀ a, a ∈ s.visited ↔ a ∈ s.order
  nodup : s.order.Nodup
  topological : Topological (dependenciesOf skillDeps) s.order
  apart : ∀ a ∈ s.visiting, a ∉ s.order

/-- The skills have been visited: the order has grown by them and what they need. -/
structure Visits (skillDeps : InsertionMap String (List String)) (ids : List String)
    (s s' : Search) : Prop where
  sound : Sound skillDeps s'
  visiting : ∀ a, a ∈ s'.visiting ↔ a ∈ s.visiting
  grows : s.order ⊆ s'.order
  done : ids ⊆ s'.order
  reached : ∀ a ∈ s'.order,
    a ∈ s.order ∨ ∃ id ∈ ids, ReflTransGen (Needs (dependenciesOf skillDeps)) id a

/-- The answer `true` after a visit, or `false` because of a cycle. -/
inductive Answers (skillDeps : InsertionMap String (List String)) (ids : List String) (s : Search) :
    Option (Bool × Search) → Prop
  | done {s' : Search} (h : Visits skillDeps ids s s') : Answers skillDeps ids s (some (true, s'))
  | cycle {s' : Search} (h : Cyclic (dependenciesOf skillDeps)) : Answers skillDeps ids s (some (false, s'))

/-- Each skill that is being visited needs the skill. -/
def Leads (skillDeps : InsertionMap String (List String)) (s : Search) (skillId : String) : Prop :=
  ∀ a ∈ s.visiting, TransGen (Needs (dependenciesOf skillDeps)) a skillId

/-- The keys that are not being visited. -/
def remaining (skillDeps : InsertionMap String (List String)) (s : Search) : List String :=
  skillDeps.keys.filter fun key => key ∉ s.visiting

/-! ## Loops -/

theorem Visits.refl (h : Sound skillDeps s) (hids : ids ⊆ s.order) : Visits skillDeps ids s s where
  sound := h
  visiting _ := Iff.rfl
  grows := List.Subset.refl _
  done := hids
  reached _ ha := .inl ha

theorem Visits.cons {s'' : Search} (h : Visits skillDeps [skillId] s s')
    (h' : Visits skillDeps ids s' s'') : Visits skillDeps (skillId :: ids) s s'' where
  sound := h'.sound
  visiting a := (h'.visiting a).trans (h.visiting a)
  grows := List.Subset.trans h.grows h'.grows
  done := List.cons_subset.mpr ⟨h'.grows (h.done List.mem_cons_self), h'.done⟩
  reached a ha := by
    rcases h'.reached a ha with ha | ⟨id, hid, hreach⟩
    · rcases h.reached a ha with ha | ⟨id, hid, hreach⟩
      · exact .inl ha
      · obtain rfl := List.mem_singleton.mp hid
        exact .inr ⟨id, List.mem_cons_self, hreach⟩
    · exact .inr ⟨id, List.mem_cons_of_mem _ hid, hreach⟩

theorem Answers.after {answer : Option (Bool × Search)} (h : Answers skillDeps ids s' answer)
    (hfirst : Visits skillDeps [skillId] s s') : Answers skillDeps (skillId :: ids) s answer := by
  cases h with
  | done hrest => exact .done (hfirst.cons hrest)
  | cycle hcycle => exact .cycle hcycle

theorem remaining_congr (h : ∀ a, a ∈ s'.visiting ↔ a ∈ s.visiting) :
    remaining skillDeps s' = remaining skillDeps s := by
  simp only [remaining, h]

theorem Leads.congr (h : Leads skillDeps s skillId) (hvisiting : ∀ a, a ∈ s'.visiting ↔ a ∈ s.visiting) :
    Leads skillDeps s' skillId :=
  fun a ha => h a ((hvisiting a).mp ha)

/-- A loop answers as its calls do. -/
theorem visitEach_answers {call : Search → String → Option (Bool × Search)} {n : Nat}
    (hcall : ∀ id ∈ ids, ∀ s, Sound skillDeps s → Leads skillDeps s id →
      (remaining skillDeps s).length = n → Answers skillDeps [id] s (call s id))
    (hsound : Sound skillDeps s) (hleads : ∀ id ∈ ids, Leads skillDeps s id)
    (hn : (remaining skillDeps s).length = n) :
    Answers skillDeps ids s (visitEach call s ids) := by
  induction ids generalizing s with
  | nil => exact .done (.refl hsound (List.nil_subset _))
  | cons id ids ih =>
      have hfirst := hcall id List.mem_cons_self s hsound (hleads id List.mem_cons_self) hn
      rw [visitEach]
      cases hanswer : call s id with
      | none => rw [hanswer] at hfirst; cases hfirst
      | some answer =>
          rw [hanswer] at hfirst
          cases hfirst with
          | cycle hcycle => exact .cycle hcycle
          | @done s' hdone =>
              have hrest := ih (fun id' hid' => hcall id' (List.mem_cons_of_mem _ hid')) hdone.sound
                (fun id' hid' => (hleads id' (List.mem_cons_of_mem _ hid')).congr hdone.visiting)
                (by rw [remaining_congr hdone.visiting, hn])
              exact hrest.after hdone

/-! ## One call -/

/-- A skill with dependencies is a key, and entering it leaves fewer keys. -/
theorem remaining_lt {dep : String} (hdep : dep ∈ dependenciesOf skillDeps skillId)
    (hnew : skillId ∉ s.visiting) :
    (remaining skillDeps { s with visiting := s.visiting.add skillId }).length <
      (remaining skillDeps s).length := by
  have hkey : skillId ∈ skillDeps.keys := by
    by_contra hkey
    rw [dependenciesOf, InsertionMap.get_eq_none_iff.mpr hkey] at hdep
    cases hdep
  have hfilter : remaining skillDeps { s with visiting := s.visiting.add skillId } =
      (remaining skillDeps s).filter (· ≠ skillId) := by
    rw [remaining, remaining, List.filter_filter]
    refine List.filter_congr fun key _ => ?_
    simp
  rw [hfilter]
  exact List.length_filter_lt_length_iff_exists.mpr
    ⟨skillId, List.mem_filter.mpr ⟨hkey, by simpa using hnew⟩, by simp⟩

/-- The skill goes to the end of the order when its dependencies are there. -/
theorem Visits.leave (h : Visits skillDeps (dependenciesOf skillDeps skillId)
      { s with visiting := s.visiting.add skillId } s')
    (hnew : skillId ∉ s.visiting) :
    Visits skillDeps [skillId] s ⟨s'.visited.add skillId, s'.visiting.delete skillId,
      s'.order ++ [skillId]⟩ where
  sound := by
    -- the skill was marked while its dependencies were visited, so it is not in the order yet
    have hentered : skillId ∈ s'.visiting := (h.visiting skillId).mpr (by simp)
    have habsent := h.sound.apart skillId hentered
    constructor
    · intro a
      simp [h.sound.visited a, or_comm]
    · exact List.nodup_append.mpr ⟨h.sound.nodup, List.nodup_singleton _, fun a ha b hb heq =>
        habsent (List.mem_singleton.mp hb ▸ heq ▸ ha)⟩
    · exact each_concat.mpr ⟨h.sound.topological, h.done⟩
    · intro a ha
      obtain ⟨hne, ha⟩ := InsertionSet.mem_delete.mp ha
      simpa using ⟨h.sound.apart a ha, hne⟩
  visiting a := by
    rw [InsertionSet.mem_delete, h.visiting, InsertionSet.mem_add]
    constructor
    · rintro ⟨hne, rfl | ha⟩
      · exact absurd rfl hne
      · exact ha
    · intro ha
      exact ⟨fun heq => hnew (heq ▸ ha), .inr ha⟩
  grows := List.Subset.trans h.grows (List.subset_append_left _ _)
  done := by simp
  reached a ha := by
    rcases List.mem_append.mp ha with ha | ha
    · rcases h.reached a ha with ha | ⟨dep, hdep, hreach⟩
      · exact .inl ha
      · exact .inr ⟨skillId, List.mem_cons_self, .head hdep hreach⟩
    · obtain rfl := List.mem_singleton.mp ha
      exact .inr ⟨a, List.mem_cons_self, .refl⟩

/-- The skills that are being visited need the dependencies of a skill that they need. -/
theorem Leads.enter (h : Leads skillDeps s skillId) {dep : String}
    (hdep : dep ∈ dependenciesOf skillDeps skillId) :
    Leads skillDeps { s with visiting := s.visiting.add skillId } dep := by
  intro a ha
  rcases InsertionSet.mem_add.mp ha with rfl | ha
  · exact .single hdep
  · exact (h a ha).tail hdep

/-- A call answers, if more calls may be open than there are keys left. -/
theorem visit_answers {calls : Nat} (hsound : Sound skillDeps s) (hleads : Leads skillDeps s skillId)
    (hcalls : (remaining skillDeps s).length < calls) :
    Answers skillDeps [skillId] s (visit skillDeps calls s skillId) := by
  induction calls generalizing s skillId with
  | zero => exact absurd hcalls (Nat.not_lt_zero _)
  | succ calls ih =>
      rw [visit]
      split_ifs with hvisited hvisiting
      · have hmem := (hsound.visited skillId).mp hvisited
        exact .done (.refl hsound (List.cons_subset.mpr ⟨hmem, List.nil_subset _⟩))
      · -- a skill that is being visited is met again only on a cycle
        exact .cycle ⟨skillId, hleads skillId hvisiting⟩
      · have hentered : Sound skillDeps { s with visiting := s.visiting.add skillId } := by
          refine { hsound with apart := fun a ha => ?_ }
          rcases InsertionSet.mem_add.mp ha with rfl | ha
          · exact fun hmem => hvisited ((hsound.visited a).mpr hmem)
          · exact hsound.apart a ha
        have hdeps : Answers skillDeps (dependenciesOf skillDeps skillId)
            { s with visiting := s.visiting.add skillId }
            (visitEach (visit skillDeps calls) { s with visiting := s.visiting.add skillId }
              (dependenciesOf skillDeps skillId)) := by
          refine visitEach_answers (fun dep hdep s' hs' hleads' hn => ih hs' hleads' ?_) hentered
            (fun dep hdep => hleads.enter hdep) rfl
          -- one more key is marked, so one call less is enough
          have hlt := remaining_lt hdep hvisiting
          omega
        cases hdeps' : visitEach (visit skillDeps calls)
            { s with visiting := s.visiting.add skillId } (dependenciesOf skillDeps skillId) with
        | none => rw [hdeps'] at hdeps; cases hdeps
        | some answer =>
            rw [hdeps'] at hdeps
            cases hdeps with
            | cycle hcycle => exact .cycle hcycle
            | done hdone => exact .done (hdone.leave hvisiting)

end Search

/-! ## The answer -/

/-- The answer is `null` exactly if there is a cycle of dependencies; otherwise it has the keys and all
that they need, each skill once and behind its dependencies. -/
theorem resolveInstallOrder_sorts (skillDeps : InsertionMap String (List String)) :
    ∃ answer, resolveInstallOrder skillDeps = some answer ∧
      (answer = none ↔ Cyclic (dependenciesOf skillDeps)) ∧
      ∀ order, answer = some order →
        order.Nodup ∧
        (∀ skillId, skillId ∈ order ↔
          ∃ key ∈ skillDeps.keys, ReflTransGen (Needs (dependenciesOf skillDeps)) key skillId) ∧
        Topological (dependenciesOf skillDeps) order := by
  have hempty : Sound skillDeps .empty :=
    ⟨fun a => by simp [Search.empty], List.nodup_nil, each_nil, fun a ha => by simp [Search.empty] at ha⟩
  have hleads (id : String) : Leads skillDeps .empty id := fun a ha => by simp [Search.empty] at ha
  have hremaining : remaining skillDeps .empty = skillDeps.keys := by
    simp [remaining, Search.empty]
  have hanswers : Answers skillDeps skillDeps.keys .empty
      (visitEach (visit skillDeps (skillDeps.size + 1)) .empty skillDeps.keys) := by
    refine visitEach_answers (fun id hid s hs hlead hn => visit_answers hs hlead ?_) hempty
      (fun id _ => hleads id) rfl
    rw [hn, hremaining]
    simp [InsertionMap.keys, InsertionMap.size]
  rw [resolveInstallOrder]
  cases hanswer : visitEach (visit skillDeps (skillDeps.size + 1)) .empty skillDeps.keys with
  | none => rw [hanswer] at hanswers; cases hanswers
  | some answer =>
      rw [hanswer] at hanswers
      cases hanswers with
      | cycle hcycle =>
          exact ⟨none, rfl, ⟨fun _ => hcycle, fun _ => rfl⟩, fun _ horder => by cases horder⟩
      | @done s hdone =>
          refine ⟨some s.order, rfl, ⟨fun hnone => (by cases hnone), ?_⟩, ?_⟩
          · rintro ⟨a, ha⟩
            -- the items of a cycle have dependencies and are keys
            obtain ⟨dep, hdep, -⟩ := TransGen.head'_iff.mp ha
            have hkey : a ∈ skillDeps.keys := by
              by_contra hkey
              rw [Needs, dependenciesOf, InsertionMap.get_eq_none_iff.mpr hkey] at hdep
              cases hdep
            exact absurd ha
              (hdone.sound.topological.not_needs_itself hdone.sound.nodup (hdone.done hkey))
          · rintro order ⟨⟩
            refine ⟨hdone.sound.nodup, fun skillId => ⟨fun hmem => ?_, ?_⟩, hdone.sound.topological⟩
            · exact (hdone.reached skillId hmem).resolve_left List.not_mem_nil
            · rintro ⟨key, hkey, hreach⟩
              exact hdone.sound.topological.mem_of_needs (hdone.done hkey) hreach

/-- Two skills share a dependency that is not a key; then one needs itself. -/
example :
    resolveInstallOrder ((InsertionMap.empty.set "app" ["db", "log"]).set "db" ["log"]) =
        some (some ["log", "db", "app"]) ∧
      resolveInstallOrder (InsertionMap.empty.set "app" ["app"]) = some none := by
  decide

end ThinkLocal.Skills
