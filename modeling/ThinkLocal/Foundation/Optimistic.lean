import ThinkLocal.Foundation.Machine

/-!
# Optimistic transitions

Objects with a state each.  A call reads the state of an object, checks that its transition is
allowed from there, and updates the object later, provided that it is still in the state that was
read.  Between the two any other calls may read and update.

If no path of allowed transitions comes back to a state, the guard by the old state is enough: of
all the calls that read one state of one object, the first to update wins and no other does.
-/

namespace Foundation.Optimistic

/-- A call after its read. -/
structure Attempt (κ σ : Type*) where
  key : κ
  read : σ
  target : σ

/-- Calls are numbered in the order of their reads.  `ended` lists the updates with their answers,
`log` the calls that changed an object. -/
structure State (κ σ : Type*) where
  value : κ → Option σ
  calls : List (Attempt κ σ)
  ended : List (ℕ × Bool)
  log : List ℕ

inductive Action (κ σ : Type*)
  | create (key : κ)
  | read (key : κ) (target : σ)
  | update (call : ℕ)

variable {κ σ : Type*} [DecidableEq κ] [DecidableEq σ]

/-- The update of a call that has not ended. -/
def runUpdate (s : State κ σ) (call : ℕ) (a : Attempt κ σ) : State κ σ :=
  if s.value a.key = some a.read then
    { s with
      value := Function.update s.value a.key (some a.target)
      ended := s.ended ++ [(call, true)]
      log := s.log ++ [call] }
  else { s with ended := s.ended ++ [(call, false)] }

/-- The machine of objects that are created in the state `start`. -/
def machine (start : σ) (valid : σ → σ → Bool) : Machine (State κ σ) (Action κ σ) where
  init := ⟨fun _ => none, [], [], []⟩
  step s
    | .create key =>
        if s.value key = none then
          some { s with value := Function.update s.value key (some start) }
        else none
    | .read key target =>
        match s.value key with
        | some current =>
            if valid current target then
              some { s with calls := s.calls ++ [⟨key, current, target⟩] }
            else some s
        | none => some s
    | .update call =>
        if call ∈ s.ended.map Prod.fst then none
        else (s.calls[call]?).map (runUpdate s call)

/-! ## The path of an object -/

/-- The call changed the object. -/
def State.changed (s : State κ σ) (key : κ) (call : ℕ) : Option σ :=
  s.calls[call]?.bind fun a => if a.key = key then some a.target else none

/-- The states that an object went through. -/
def State.path (s : State κ σ) (start : σ) (key : κ) : List σ :=
  start :: s.log.filterMap (s.changed key)

/-- A call that read what the attempt read has changed the object. -/
def State.Won (s : State κ σ) (a : Attempt κ σ) : Prop :=
  ∃ call ∈ s.log, ∃ b, s.calls[call]? = some b ∧ b.key = a.key ∧ b.read = a.read

section Paths

variable {s : State κ σ} {start : σ} {valid : σ → σ → Bool} {rank : σ → ℕ} {key : κ}

/-- What holds of the calls and the objects in every run. -/
structure Inv (start : σ) (valid : σ → σ → Bool) (rank : σ → ℕ) (s : State κ σ) : Prop where
  /-- An object is in the last state of its path. -/
  last : ∀ key current, s.value key = some current → (s.path start key).getLast? = some current
  chain : ∀ key, (s.path start key).IsChain fun a b => valid a b = true
  /-- Every call has read a state of an object, and its transition is allowed there. -/
  read : ∀ a ∈ s.calls, (∃ current, s.value a.key = some current) ∧ valid a.read a.target = true
  ended_lt : ∀ e ∈ s.ended, e.1 < s.calls.length
  ended_nodup : (s.ended.map Prod.fst).Nodup
  log_eq : s.log = (s.ended.filter Prod.snd).map Prod.fst
  /-- An object has left the state that a winner read. -/
  passed : ∀ call ∈ s.log, ∀ a, s.calls[call]? = some a →
    ∀ current, s.value a.key = some current → rank a.read < rank current
  /-- An object is in the state that a call read, or a call that read the same has won. -/
  reached : ∀ a ∈ s.calls, s.value a.key = some a.read ∨ s.Won a
  /-- Two winners did not read one state of one object. -/
  unique : ∀ call ∈ s.log, ∀ call' ∈ s.log, ∀ a a', s.calls[call]? = some a →
    s.calls[call']? = some a' → a.key = a'.key → a.read = a'.read → call = call'
  won : ∀ e ∈ s.ended, ∀ a, s.calls[e.1]? = some a → s.Won a

omit [DecidableEq σ] in
theorem Inv.log_lt (hinv : Inv start valid rank s) {call : ℕ} (h : call ∈ s.log) :
    call < s.calls.length := by
  rw [hinv.log_eq] at h
  obtain ⟨e, he, rfl⟩ := List.mem_map.mp h
  exact hinv.ended_lt e (List.mem_of_mem_filter he)

theorem Inv.init : Inv start valid rank (machine (κ := κ) start valid).init := by
  refine ⟨fun _ _ h => (nomatch h), fun _ => List.isChain_singleton _, ?_, ?_, List.nodup_nil, rfl,
    ?_, ?_, ?_, ?_⟩
  all_goals exact fun _ h => absurd h List.not_mem_nil

omit [DecidableEq σ] in
/-- A created object is at the start of its path. -/
theorem Inv.create (hinv : Inv start valid rank s) (hnone : s.value key = none) :
    Inv start valid rank { s with value := Function.update s.value key (some start) } := by
  -- a call has read the state of its object, so none is about the new one
  have hne : ∀ a ∈ s.calls, a.key ≠ key := by
    rintro a ha rfl
    obtain ⟨⟨current, hcurrent⟩, -⟩ := hinv.read a ha
    rw [hnone] at hcurrent
    cases hcurrent
  have hvalue : ∀ a ∈ s.calls, Function.update s.value key (some start) a.key = s.value a.key :=
    fun a ha => Function.update_of_ne (hne a ha) _ _
  have hget : ∀ {call a}, s.calls[call]? = some a → a ∈ s.calls := List.mem_of_getElem?
  refine ⟨fun key' current hcurrent => ?_, hinv.chain, fun a ha => ?_, hinv.ended_lt,
    hinv.ended_nodup, hinv.log_eq, fun call hcall a ha current hcurrent => ?_, fun a ha => ?_,
    hinv.unique, hinv.won⟩
  · dsimp only at hcurrent
    by_cases hkey : key' = key
    · subst hkey
      have hempty : s.log.filterMap (s.changed key') = [] := by
        rw [List.filterMap_eq_nil_iff]
        intro call _
        cases ha : s.calls[call]? with
        | none => simp [State.changed, ha]
        | some a => simp [State.changed, ha, hne a (hget ha)]
      rw [Function.update_self] at hcurrent
      obtain rfl := Option.some.inj hcurrent
      change (start :: s.log.filterMap (s.changed key')).getLast? = some start
      rw [hempty]
      rfl
    · rw [Function.update_of_ne hkey] at hcurrent
      exact hinv.last key' current hcurrent
  · dsimp only
    rw [hvalue a ha]
    exact hinv.read a ha
  · dsimp only at hcurrent
    rw [hvalue a (hget ha)] at hcurrent
    exact hinv.passed call hcall a ha current hcurrent
  · dsimp only
    rw [hvalue a ha]
    exact hinv.reached a ha

omit [DecidableEq σ] in
/-- A new call has read the state that its object is in. -/
theorem Inv.call (hinv : Inv start valid rank s) {a : Attempt κ σ}
    (hcurrent : s.value a.key = some a.read) (hvalid : valid a.read a.target = true) :
    Inv start valid rank { s with calls := s.calls ++ [a] } := by
  -- a call keeps its number, so the log means what it meant
  have hold : ∀ call ∈ s.log, (s.calls ++ [a])[call]? = s.calls[call]? :=
    fun call hcall => List.getElem?_append_left (hinv.log_lt hcall)
  have hwon : ∀ {b}, s.Won b → { s with calls := s.calls ++ [a] }.Won b := by
    rintro b ⟨call, hcall, c, hc, hsame⟩
    exact ⟨call, hcall, c, (hold call hcall).trans hc, hsame⟩
  have hpath : ∀ key, { s with calls := s.calls ++ [a] }.path start key = s.path start key := by
    intro key
    unfold State.path
    congr 1
    apply List.filterMap_congr
    intro call hcall
    unfold State.changed
    rw [hold call hcall]
  refine ⟨fun key current h => ?_, fun key => ?_, fun b hb => ?_, fun e he => ?_,
    hinv.ended_nodup, hinv.log_eq, fun call hcall b hb => ?_, fun b hb => ?_,
    fun call hcall call' hcall' b b' hb hb' => ?_, fun e he b hb => ?_⟩
  · rw [hpath]
    exact hinv.last key current h
  · rw [hpath]
    exact hinv.chain key
  · rcases List.mem_append.mp hb with hb | hb
    · exact hinv.read b hb
    · obtain rfl := List.mem_singleton.mp hb
      exact ⟨⟨_, hcurrent⟩, hvalid⟩
  · rw [List.length_append]
    exact Nat.lt_add_right _ (hinv.ended_lt e he)
  · exact hinv.passed call hcall b ((hold call hcall).symm.trans hb)
  · rcases List.mem_append.mp hb with hb | hb
    · exact (hinv.reached b hb).imp_right hwon
    · obtain rfl := List.mem_singleton.mp hb
      exact .inl hcurrent
  · exact hinv.unique call hcall call' hcall' b b' ((hold call hcall).symm.trans hb)
      ((hold call' hcall').symm.trans hb')
  · have hlt := hinv.ended_lt e he
    exact hwon (hinv.won e he b ((List.getElem?_append_left hlt).symm.trans hb))

omit [DecidableEq σ] in
/-- A call that loses changes no object. -/
theorem Inv.lose (hinv : Inv start valid rank s) {call : ℕ} {a : Attempt κ σ}
    (hopen : call ∉ s.ended.map Prod.fst) (ha : s.calls[call]? = some a)
    (hvalue : s.value a.key ≠ some a.read) :
    Inv start valid rank { s with ended := s.ended ++ [(call, false)] } := by
  have hlt : call < s.calls.length := (List.getElem?_eq_some_iff.mp ha).1
  refine ⟨hinv.last, hinv.chain, hinv.read, fun e he => ?_, ?_, ?_, hinv.passed, hinv.reached,
    hinv.unique, fun e he b hb => ?_⟩
  · rcases List.mem_append.mp he with he | he
    · exact hinv.ended_lt e he
    · obtain rfl := List.mem_singleton.mp he
      exact hlt
  · rw [List.map_append, List.map_singleton]
    exact hinv.ended_nodup.append (List.nodup_singleton _) (List.disjoint_singleton.mpr hopen)
  · change s.log = _
    rw [List.filter_append, List.map_append, hinv.log_eq]
    simp
  · rcases List.mem_append.mp he with he | he
    · exact hinv.won e he b hb
    · obtain rfl := List.mem_singleton.mp he
      obtain rfl := Option.some.inj (ha.symm.trans hb)
      exact (hinv.reached a (List.mem_of_getElem? ha)).resolve_left hvalue

/-! ### A call that wins -/

/-- The call takes the object from the state that it read to its target. -/
def State.win (s : State κ σ) (call : ℕ) (a : Attempt κ σ) : State κ σ :=
  { s with
    value := Function.update s.value a.key (some a.target)
    ended := s.ended ++ [(call, true)]
    log := s.log ++ [call] }

section Win

variable {call : ℕ} {a b : Attempt κ σ}

omit [DecidableEq σ]

theorem State.win_value_self : (s.win call a).value a.key = some a.target := Function.update_self ..

theorem State.win_value_of_ne (hkey : key ≠ a.key) : (s.win call a).value key = s.value key :=
  Function.update_of_ne hkey _ _

theorem State.Won.win (h : s.Won b) : (s.win call a).Won b := by
  obtain ⟨winner, hwinner, hsame⟩ := h
  exact ⟨winner, List.mem_append_left _ hwinner, hsame⟩

theorem State.won_win (ha : s.calls[call]? = some a) : (s.win call a).Won a :=
  ⟨call, List.mem_append_right _ (List.mem_singleton_self _), a, ha, rfl, rfl⟩

theorem State.path_win :
    (s.win call a).path start key = s.path start key ++ [call].filterMap (s.changed key) :=
  congrArg (start :: ·) List.filterMap_append

theorem State.path_win_self (ha : s.calls[call]? = some a) :
    (s.win call a).path start a.key = s.path start a.key ++ [a.target] := by
  rw [path_win]
  simp [State.changed, ha]

theorem State.path_win_of_ne (ha : s.calls[call]? = some a) (hkey : key ≠ a.key) :
    (s.win call a).path start key = s.path start key := by
  rw [path_win]
  simp [State.changed, ha, Ne.symm hkey]

theorem Inv.last_win (hinv : Inv start valid rank s) (ha : s.calls[call]? = some a) {current : σ}
    (hcurrent : (s.win call a).value key = some current) :
    ((s.win call a).path start key).getLast? = some current := by
  by_cases hkey : key = a.key
  · subst hkey
    rw [State.win_value_self] at hcurrent
    obtain rfl := Option.some.inj hcurrent
    rw [State.path_win_self ha, List.getLast?_concat]
  · rw [State.win_value_of_ne hkey] at hcurrent
    rw [State.path_win_of_ne ha hkey]
    exact hinv.last key current hcurrent

theorem Inv.chain_win (hinv : Inv start valid rank s) (ha : s.calls[call]? = some a)
    (hvalue : s.value a.key = some a.read) (key : κ) :
    ((s.win call a).path start key).IsChain fun a b => valid a b = true := by
  by_cases hkey : key = a.key
  · subst hkey
    rw [State.path_win_self ha]
    refine (hinv.chain a.key).append (List.isChain_singleton _) ?_
    intro last hlast target htarget
    rw [hinv.last a.key a.read hvalue] at hlast
    obtain rfl := Option.some.inj hlast
    obtain rfl := Option.some.inj htarget
    exact (hinv.read a (List.mem_of_getElem? ha)).2
  · rw [State.path_win_of_ne ha hkey]
    exact hinv.chain key

theorem Inv.read_win (hinv : Inv start valid rank s) (hb : b ∈ s.calls) :
    (∃ current, (s.win call a).value b.key = some current) ∧ valid b.read b.target = true := by
  obtain ⟨⟨current, hcurrent⟩, hvalid⟩ := hinv.read b hb
  by_cases hkey : b.key = a.key
  · exact ⟨⟨a.target, by rw [hkey, State.win_value_self]⟩, hvalid⟩
  · exact ⟨⟨current, by rw [State.win_value_of_ne hkey, hcurrent]⟩, hvalid⟩

/-- The states that winners read stay below the object. -/
theorem Inv.passed_win (hrank : ∀ a b, valid a b = true → rank a < rank b)
    (hinv : Inv start valid rank s) (ha : s.calls[call]? = some a)
    (hvalue : s.value a.key = some a.read) {winner : ℕ} (hwinner : winner ∈ (s.win call a).log)
    (hb : s.calls[winner]? = some b) {current : σ}
    (hcurrent : (s.win call a).value b.key = some current) : rank b.read < rank current := by
  have hup := hrank a.read a.target (hinv.read a (List.mem_of_getElem? ha)).2
  rcases List.mem_append.mp hwinner with hold | hnew
  · by_cases hkey : b.key = a.key
    · rw [hkey, State.win_value_self] at hcurrent
      obtain rfl := Option.some.inj hcurrent
      exact (hinv.passed winner hold b hb a.read (hkey ▸ hvalue)).trans hup
    · rw [State.win_value_of_ne hkey] at hcurrent
      exact hinv.passed winner hold b hb current hcurrent
  · obtain rfl := List.mem_singleton.mp hnew
    obtain rfl := Option.some.inj (ha.symm.trans hb)
    rw [State.win_value_self] at hcurrent
    obtain rfl := Option.some.inj hcurrent
    exact hup

theorem Inv.reached_win (hinv : Inv start valid rank s) (ha : s.calls[call]? = some a)
    (hvalue : s.value a.key = some a.read) (hb : b ∈ s.calls) :
    (s.win call a).value b.key = some b.read ∨ (s.win call a).Won b := by
  rcases hinv.reached b hb with hread | hwon
  · by_cases hkey : b.key = a.key
    · rw [hkey, hvalue] at hread
      obtain ⟨winner, hwinner, c, hc, hckey, hcread⟩ := State.won_win ha
      exact .inr ⟨winner, hwinner, c, hc, hckey.trans hkey.symm, hcread.trans (Option.some.inj hread)⟩
    · exact .inl (by rw [State.win_value_of_ne hkey, hread])
  · exact .inr hwon.win

/-- A former winner read a state that the object has left. -/
theorem Inv.read_ne_of_won (hinv : Inv start valid rank s) (hvalue : s.value a.key = some a.read)
    {winner : ℕ} (hwinner : winner ∈ s.log) (hb : s.calls[winner]? = some b)
    (hkey : b.key = a.key) : b.read ≠ a.read := by
  intro hread
  have hpassed := hinv.passed winner hwinner b hb a.read (hkey ▸ hvalue)
  rw [hread] at hpassed
  exact lt_irrefl _ hpassed

theorem Inv.unique_win (hinv : Inv start valid rank s) (ha : s.calls[call]? = some a)
    (hvalue : s.value a.key = some a.read) {c c' : ℕ} (hc : c ∈ (s.win call a).log)
    (hc' : c' ∈ (s.win call a).log) {b b' : Attempt κ σ} (hb : s.calls[c]? = some b)
    (hb' : s.calls[c']? = some b') (hkey : b.key = b'.key) (hread : b.read = b'.read) : c = c' := by
  rcases List.mem_append.mp hc with hc | hc <;> rcases List.mem_append.mp hc' with hc' | hc'
  · exact hinv.unique c hc c' hc' b b' hb hb' hkey hread
  · rw [List.mem_singleton.mp hc'] at hb'
    obtain rfl := Option.some.inj (ha.symm.trans hb')
    exact absurd hread (hinv.read_ne_of_won hvalue hc hb hkey)
  · rw [List.mem_singleton.mp hc] at hb
    obtain rfl := Option.some.inj (ha.symm.trans hb)
    exact absurd hread.symm (hinv.read_ne_of_won hvalue hc' hb' hkey.symm)
  · rw [List.mem_singleton.mp hc, List.mem_singleton.mp hc']

theorem Inv.win (hrank : ∀ a b, valid a b = true → rank a < rank b)
    (hinv : Inv start valid rank s) (hopen : call ∉ s.ended.map Prod.fst)
    (ha : s.calls[call]? = some a) (hvalue : s.value a.key = some a.read) :
    Inv start valid rank (s.win call a) where
  last _ _ := hinv.last_win ha
  chain := hinv.chain_win ha hvalue
  read _ := hinv.read_win
  ended_lt e he := by
    rcases List.mem_append.mp he with he | he
    · exact hinv.ended_lt e he
    · obtain rfl := List.mem_singleton.mp he
      exact (List.getElem?_eq_some_iff.mp ha).1
  ended_nodup := by
    rw [State.win, List.map_append, List.map_singleton]
    exact hinv.ended_nodup.append (List.nodup_singleton _) (List.disjoint_singleton.mpr hopen)
  log_eq := by
    rw [State.win, List.filter_append, List.map_append, hinv.log_eq]
    rfl
  passed _ hwinner _ hb _ := hinv.passed_win hrank ha hvalue hwinner hb
  reached _ := hinv.reached_win ha hvalue
  unique _ hc _ hc' _ _ := hinv.unique_win ha hvalue hc hc'
  won e he b hb := by
    rcases List.mem_append.mp he with he | he
    · exact (hinv.won e he b hb).win
    · obtain rfl := List.mem_singleton.mp he
      obtain rfl := Option.some.inj (ha.symm.trans hb)
      exact State.won_win ha

end Win

theorem Inv.step (hrank : ∀ a b, valid a b = true → rank a < rank b)
    (hinv : Inv start valid rank s) {action : Action κ σ} {s' : State κ σ}
    (h : (machine start valid).step s action = some s') : Inv start valid rank s' := by
  cases action with
  | create key =>
      simp only [machine] at h
      split_ifs at h with hnone
      obtain rfl := Option.some.inj h
      exact hinv.create hnone
  | read key target =>
      simp only [machine] at h
      cases hcurrent : s.value key with
      | none =>
          rw [hcurrent] at h
          obtain rfl := Option.some.inj h
          exact hinv
      | some current =>
          rw [hcurrent] at h
          dsimp only at h
          split_ifs at h with hvalid
          · obtain rfl := Option.some.inj h
            exact hinv.call hcurrent hvalid
          · obtain rfl := Option.some.inj h
            exact hinv
  | update call =>
      simp only [machine] at h
      split_ifs at h with hended
      obtain ⟨a, ha, rfl⟩ := Option.map_eq_some_iff.mp h
      unfold runUpdate
      -- the update takes place only if the state that was read is still there
      split_ifs with hvalue
      · exact hinv.win hrank hended ha hvalue
      · exact hinv.lose hended ha hvalue

/-- Where transitions lead upwards, the invariant holds in every run. -/
theorem inv_of_reachable (hrank : ∀ a b, valid a b = true → rank a < rank b)
    (h : (machine (κ := κ) start valid).Reachable s) : Inv start valid rank s :=
  h.invariant Inv.init fun _ _ _ hinv hstep => hinv.step hrank hstep

omit [DecidableEq σ] in
theorem Inv.mem_log_iff (hinv : Inv start valid rank s) {call : ℕ} :
    call ∈ s.log ↔ (call, true) ∈ s.ended := by
  rw [hinv.log_eq, List.mem_map]
  constructor
  · rintro ⟨⟨call, won⟩, hmem, rfl⟩
    obtain ⟨hmem, rfl⟩ := List.mem_filter.mp hmem
    exact hmem
  · exact fun h => ⟨(call, true), List.mem_filter.mpr ⟨h, rfl⟩, rfl⟩

omit [DecidableEq σ] in
theorem Inv.log_nodup (hinv : Inv start valid rank s) : s.log.Nodup := by
  rw [hinv.log_eq]
  exact hinv.ended_nodup.sublist (List.filter_sublist.map _)

omit [DecidableEq σ] in
/-- Of the calls that read one state of one object exactly one has won, once one of them has
updated. -/
theorem Inv.existsUnique_winner (hinv : Inv start valid rank s) {e : ℕ × Bool} (he : e ∈ s.ended)
    {a : Attempt κ σ} (ha : s.calls[e.1]? = some a) :
    ∃! call, (call, true) ∈ s.ended ∧
      ∃ b, s.calls[call]? = some b ∧ b.key = a.key ∧ b.read = a.read := by
  obtain ⟨winner, hwinner, b, hb, hkey, hread⟩ := hinv.won e he a ha
  refine ⟨winner, ⟨hinv.mem_log_iff.mp hwinner, b, hb, hkey, hread⟩, ?_⟩
  rintro call ⟨hcall, c, hc, hckey, hcread⟩
  exact hinv.unique call (hinv.mem_log_iff.mpr hcall) winner hwinner c b hc hb
    (hckey.trans hkey.symm) (hcread.trans hread.symm)

end Paths

end Foundation.Optimistic
