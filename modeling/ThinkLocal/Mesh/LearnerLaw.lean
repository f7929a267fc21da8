import ThinkLocal.Mesh.LearnerRuns

/-!
# What the learners keep to

A key is recorded at most once, for the expected URI and from a card that names it, and a fetch is
preceded by the gates of its learner.  `holds_step` is the one step lemma of the common part; each
learner adds what its gates leave in the log.
-/

namespace ThinkLocal.Mesh.Learner

open Foundation Js

/-! ## The log -/

def fetches (log : List Event) : Nat :=
  log.countP fun
    | .fetch _ _ => true
    | _ => false

def cards (log : List Event) : List (Option FetchedCard) :=
  log.filterMap fun
    | .fetched card => some card
    | _ => none

def records (log : List Event) : List Observed :=
  log.filterMap fun
    | .record entry => some entry
    | _ => none

section Log

variable (log : List Event) (event : Event)

theorem fetches_append : fetches (log ++ [event]) = fetches log + fetches [event] :=
  List.countP_append

theorem cards_append : cards (log ++ [event]) = cards log ++ cards [event] :=
  List.filterMap_append

theorem records_append : records (log ++ [event]) = records log ++ records [event] :=
  List.filterMap_append

end Log

/-- How a fetch and a record are preceded. -/
def Sound (d : Common) (Ready : List Event → String → Option String → Prop) (before : List Event) :
    Event → Prop
  | .fetch endpoint pin => Ready before endpoint pin ∧ cards before = []
  | .record entry => records before = [] ∧ entry.spiffeUri = d.expectedSpiffeUri ∧
      ∃ card, some card ∈ cards before ∧ card.spiffeUri = some d.expectedSpiffeUri ∧
        card.publicKey = some entry.publicKey
  | _ => True

/-- What a learner keeps to, over what it asks before a fetch. -/
structure LearnerLaw (d : Common) (Ready : List Event → String → Option String → Prop) (s : Run) :
    Prop where
  /-- Every fetch comes after the gates and before any card; a record is of a fetched card that
  names the expected URI. -/
  each : Each (Sound d Ready) s.log
  once : (records s.log).length ≤ 1
  attempts : (fetches s.log : ℤ) ≤ ⌈d.maxAttempts⌉
  returned : ∀ outcome, s.pc = .returned outcome →
    (outcome = .recorded ↔ records s.log ≠ [])
  /-- A learner that throws has called `record` exactly if that or the audit hook threw. -/
  threw : ∀ site, s.pc = .threw site → (records s.log ≠ [] ↔ site = .record ∨ site = .audit)

/-! ## The common part -/

section CommonPart

variable {d : Common} {Ready : List Event → String → Option String → Prop} {s s' : Run}
  {log : List Event} {endpoint : String} {pin : Option String} {attempt : Nat}

/-- Where the learner waits, and what the log holds then. -/
def AtPc (d : Common) (Ready : List Event → String → Option String → Prop) (log : List Event) :
    Pc → Prop
  | .resolvable | .rateLimit | .fallback | .gate _ =>
      fetches log = 0 ∧ cards log = [] ∧ records log = []
  | .fetching endpoint pin attempt => Ready log endpoint pin ∧ fetches log = attempt ∧
      (attempt : ℤ) ≤ ⌈d.maxAttempts⌉ ∧ cards log = [] ∧ records log = []
  | .delaying endpoint pin attempt => Ready log endpoint pin ∧ fetches log = attempt ∧
      (attempt : ℤ) < ⌈d.maxAttempts⌉ ∧ cards log = [] ∧ records log = []
  | .recording _ | .auditing | .returned .recorded | .threw .record | .threw .audit =>
      (fetches log : ℤ) ≤ ⌈d.maxAttempts⌉ ∧ (records log).length = 1
  | .returned _ | .threw _ => (fetches log : ℤ) ≤ ⌈d.maxAttempts⌉ ∧ records log = []

structure Holds (d : Common) (Ready : List Event → String → Option String → Prop) (s : Run) :
    Prop where
  each : Each (Sound d Ready) s.log
  atPc : AtPc d Ready s.log s.pc

theorem one_le_ceil_maxAttempts (d : Common) : (1 : ℤ) ≤ ⌈d.maxAttempts⌉ := by
  have hone : (1 : ℚ) ≤ d.maxAttempts := le_max_left _ _
  exact Int.one_le_ceil_iff.mpr (by linarith)

/-- A fetch that is started after the gates. -/
theorem holds_startFetch (heach : Each (Sound d Ready) log) (hready : Ready log endpoint pin)
    (hmono : Ready (log ++ [.fetch endpoint pin]) endpoint pin) (hfetches : fetches log + 1 = attempt)
    (hattempt : (attempt : ℤ) ≤ ⌈d.maxAttempts⌉) (hcards : cards log = [])
    (hrecords : records log = []) : Holds d Ready (Common.startFetch endpoint pin attempt log) where
  each := each_concat.mpr ⟨heach, hready, hcards⟩
  atPc := by
    unfold Common.startFetch
    refine ⟨hmono, ?_, hattempt, ?_, ?_⟩
    · rw [fetches_append]
      exact hfetches
    · rw [cards_append, hcards]
      rfl
    · rw [records_append, hrecords]
      rfl

theorem holds_judge (heach : Each (Sound d Ready) log) (hbound : (fetches log : ℤ) ≤ ⌈d.maxAttempts⌉)
    (hrecords : records log = []) (card : Option FetchedCard) :
    Holds d Ready (d.judge endpoint card log) := by
  have hfetched : Each (Sound d Ready) (log ++ [.fetched card]) := each_concat.mpr ⟨heach, trivial⟩
  have hnone : records (log ++ [.fetched card]) = [] := by
    rw [records_append, hrecords]
    rfl
  unfold Common.judge
  cases hkey : acceptedKey d.expectedSpiffeUri card with
  | none =>
      refine ⟨hfetched, ?_, hnone⟩
      rw [fetches_append]
      exact hbound
  | some publicKey =>
      obtain ⟨fetched, rfl, hcheck⟩ := Option.bind_eq_some_iff.mp hkey
      obtain ⟨huri, hfilter⟩ := Option.ite_none_right_eq_some.mp hcheck
      have hpublic : fetched.publicKey = some publicKey := (Option.filter_eq_some_iff.mp hfilter).1
      refine ⟨each_concat.mpr ⟨hfetched, hnone, rfl, fetched, ?_, huri, hpublic⟩, ?_, ?_⟩
      · rw [cards_append]
        exact List.mem_append_right _ List.mem_cons_self
      · rw [fetches_append, fetches_append]
        exact hbound
      · rw [records_append, hnone]
        rfl

/-- A rejected fetch is the last one, or another one follows after a delay. -/
theorem holds_rejected (heach : Each (Sound d Ready) log)
    (hmono : ∀ log event, Ready log endpoint pin → Ready (log ++ [event]) endpoint pin)
    (hat : AtPc d Ready log (.fetching endpoint pin attempt))
    (hstep : d.step ⟨.fetching endpoint pin attempt, log⟩ .throws = some s') :
    Holds d Ready s' := by
  obtain ⟨hready, hfetches, hbound, hcards, hrecords⟩ := hat
  have hrejected : Each (Sound d Ready) (log ++ [.rejected]) := each_concat.mpr ⟨heach, trivial⟩
  have hcount : fetches (log ++ [.rejected]) = attempt := by
    rw [fetches_append]
    exact hfetches
  have hnone : records (log ++ [.rejected]) = [] := by
    rw [records_append, hrecords]
    rfl
  unfold Common.step at hstep
  dsimp only at hstep
  split_ifs at hstep with hlast
  · obtain rfl := Option.some.inj hstep
    exact ⟨hrejected, by rwa [hcount], hnone⟩
  · obtain rfl := Option.some.inj hstep
    refine ⟨each_concat.mpr ⟨hrejected, trivial⟩, hmono _ _ (hmono _ _ hready), ?_, ?_, ?_, ?_⟩
    · rw [fetches_append, hcount]
      rfl
    · exact Int.lt_ceil.mpr (by exact_mod_cast not_le.mp hlast)
    · rw [cards_append, cards_append, hcards]
      rfl
    · rw [records_append, hnone]
      rfl

/-- One answer after the gates keeps the law. -/
theorem holds_step (hmono : ∀ log endpoint pin event, Ready log endpoint pin →
    Ready (log ++ [event]) endpoint pin) (h : Holds d Ready s) {answer : Answer}
    (hstep : d.step s answer = some s') : Holds d Ready s' := by
  obtain ⟨pc, log⟩ := s
  obtain ⟨heach, hat⟩ := h
  dsimp only at heach hat
  cases pc with
  | fetching endpoint pin attempt =>
      cases answer with
      | throws => exact holds_rejected heach (fun _ _ => hmono _ _ _ _) hat hstep
      | card card =>
          -- the card is judged, and the peer it names is recorded or not
          obtain ⟨-, hfetches, hbound, -, hrecords⟩ := hat
          obtain rfl := Option.some.inj hstep
          exact holds_judge heach (by rwa [hfetches]) hrecords card
      | bool _ | address _ | done => cases hstep
  | delaying endpoint pin attempt =>
      obtain ⟨hready, hfetches, hbound, hcards, hrecords⟩ := hat
      cases answer with
      | throws =>
          obtain rfl := Option.some.inj hstep
          exact ⟨heach, by rw [hfetches]; exact hbound.le, hrecords⟩
      | done =>
          obtain rfl := Option.some.inj hstep
          -- the next attempt starts, and it is within the bound
          exact holds_startFetch heach hready (hmono _ _ _ _ hready) (by rw [hfetches])
            (by push_cast; omega) hcards hrecords
      | bool _ | address _ | card _ => cases hstep
  | recording endpoint =>
      cases answer with
      | throws =>
          obtain rfl := Option.some.inj hstep
          exact ⟨heach, hat⟩
      | done =>
          -- the record is audited, unless no audit is wired
          obtain ⟨hbound, hrecords⟩ := hat
          unfold Common.step at hstep
          dsimp only at hstep
          split_ifs at hstep
          · obtain rfl := Option.some.inj hstep
            refine ⟨each_concat.mpr ⟨heach, trivial⟩, ?_, ?_⟩
            · rw [fetches_append]
              exact hbound
            · rw [records_append, List.length_append, hrecords]
              rfl
          · obtain rfl := Option.some.inj hstep
            exact ⟨heach, hbound, hrecords⟩
      | bool _ | address _ | card _ => cases hstep
  | auditing =>
      cases answer with
      | throws | done =>
          obtain rfl := Option.some.inj hstep
          exact ⟨heach, hat⟩
      | bool _ | address _ | card _ => cases hstep
  | resolvable | rateLimit | fallback | gate _ | returned _ | threw _ =>
      cases answer <;> cases hstep

theorem AtPc.bounds {pc : Pc} (h : AtPc d Ready log pc) :
    (fetches log : ℤ) ≤ ⌈d.maxAttempts⌉ ∧ (records log).length ≤ 1 := by
  have hone := one_le_ceil_maxAttempts d
  unfold AtPc at h
  split at h
  all_goals grind

theorem Holds.law (h : Holds d Ready s) : LearnerLaw d Ready s := by
  obtain ⟨pc, log⟩ := s
  obtain ⟨heach, hat⟩ := h
  dsimp only at heach hat
  refine ⟨heach, hat.bounds.2, hat.bounds.1, ?_, ?_⟩
  · rintro outcome rfl
    have hlength : (records log).length = 1 → records log ≠ [] := fun h hnil => by simp [hnil] at h
    cases outcome with
    | recorded => exact iff_of_true rfl (hlength hat.2)
    | skippedResolvable | rejectedIdentity | rateLimited | endpointBlocked | fetchFailed =>
        exact iff_of_false (fun h => nomatch h) (fun h => h hat.2)
  · rintro site rfl
    have hlength : (records log).length = 1 → records log ≠ [] := fun h hnil => by simp [hnil] at h
    cases site with
    | record => exact iff_of_true (hlength hat.2) (.inl rfl)
    | audit => exact iff_of_true (hlength hat.2) (.inr rfl)
    | gates | delay => exact iff_of_false (fun h => h hat.2) (by simp)

/-! ## The gates -/

/-- Nothing but gates was asked. -/
def OnlyGates (log : List Event) : Prop := fetches log = 0 ∧ cards log = [] ∧ records log = []

def Event.isGate : Event → Bool
  | .resolvable _ | .rateLimit _ | .fallback _ | .gate _ _ => true
  | _ => false

theorem OnlyGates.ask (h : OnlyGates log) (event : Event) (hevent : event.isGate = true) :
    OnlyGates (log ++ [event]) := by
  obtain ⟨hfetches, hcards, hrecords⟩ := h
  unfold OnlyGates
  rw [fetches_append, cards_append, records_append, hfetches, hcards, hrecords]
  cases event with
  | resolvable _ | rateLimit _ | fallback _ | gate _ _ => exact ⟨rfl, rfl, rfl⟩
  | fetch _ _ | rejected | fetched _ | delay _ | record _ | audit _ => cases hevent

theorem each_ask (h : Each (Sound d Ready) log) (event : Event) (hevent : event.isGate = true) :
    Each (Sound d Ready) (log ++ [event]) := by
  refine each_concat.mpr ⟨h, ?_⟩
  cases event with
  | resolvable _ | rateLimit _ | fallback _ | gate _ _ => trivial
  | fetch _ _ | rejected | fetched _ | delay _ | record _ | audit _ => cases hevent

theorem holds_returned (heach : Each (Sound d Ready) log) (hlog : OnlyGates log)
    {outcome : Outcome} (houtcome : outcome ≠ .recorded) :
    Holds d Ready ⟨.returned outcome, log⟩ := by
  have hone := one_le_ceil_maxAttempts d
  have hbound : (fetches log : ℤ) ≤ ⌈d.maxAttempts⌉ := by rw [hlog.1]; push_cast; omega
  cases outcome with
  | recorded => exact absurd rfl houtcome
  | skippedResolvable | rejectedIdentity | rateLimited | endpointBlocked | fetchFailed =>
      exact ⟨heach, hbound, hlog.2.2⟩

theorem holds_threw (heach : Each (Sound d Ready) log) (hlog : OnlyGates log) :
    Holds d Ready ⟨.threw .gates, log⟩ := by
  have hone := one_le_ceil_maxAttempts d
  exact ⟨heach, by rw [hlog.1]; push_cast; omega, hlog.2.2⟩

theorem holds_firstFetch (heach : Each (Sound d Ready) log) (hlog : OnlyGates log)
    (hready : Ready log endpoint pin) (hmono : Ready (log ++ [.fetch endpoint pin]) endpoint pin) :
    Holds d Ready (Common.startFetch endpoint pin 1 log) :=
  holds_startFetch heach hready hmono (by rw [hlog.1]) (one_le_ceil_maxAttempts d) hlog.2.1 hlog.2.2

def Pc.isGate : Pc → Bool
  | .resolvable | .rateLimit | .fallback | .gate _ => true
  | _ => false

/-- No gate is asked after the first fetch. -/
theorem isGate_of_step {answer : Answer} (hstep : d.step s answer = some s') :
    s'.pc.isGate = false := by
  unfold Common.step at hstep
  split at hstep
  all_goals try split_ifs at hstep
  all_goals first
    | cases hstep; done
    | (obtain rfl := Option.some.inj hstep
       first
         | rfl
         | (unfold Common.judge; split <;> rfl))

end CommonPart

/-! ## Inbound -/

section Inbound

variable (d : InboundDeps) {s s' : Run} {log : List Event}

/-- The unpinned fetch is one from the source address of the connection.  Any other address is the
known one of the peer, is fetched from with a pin, and passed the gate if there is one. -/
def InboundDeps.Ready (before : List Event) (endpoint : String) (pin : Option String) : Prop :=
  d.senderUri = d.expectedSpiffeUri ∧ .resolvable false ∈ before ∧ .rateLimit true ∈ before ∧
    ((d.remoteAddress ≠ "" ∧ pin = none ∧ endpoint = httpsEndpoint d.remoteAddress d.port) ∨
      (d.remoteAddress = "" ∧ pin = some d.expectedSpiffeUri ∧ ∃ host,
        endpoint = httpsEndpoint host d.port ∧ .fallback (some host) ∈ before ∧
        (d.gatesFallback = true → .gate host true ∈ before)))

theorem InboundDeps.Ready.mono {endpoint : String} {pin : Option String} (event : Event)
    (h : d.Ready log endpoint pin) : d.Ready (log ++ [event]) endpoint pin := by
  obtain ⟨hsender, hresolvable, hrate, haddress⟩ := h
  refine ⟨hsender, List.mem_append_left _ hresolvable, List.mem_append_left _ hrate, ?_⟩
  rcases haddress with hsource | ⟨hempty, hpin, host, hendpoint, hfallback, hgate⟩
  · exact .inl hsource
  · exact .inr ⟨hempty, hpin, host, hendpoint, List.mem_append_left _ hfallback,
      fun h => List.mem_append_left _ (hgate h)⟩

/-- What has been asked at each gate. -/
def InboundDeps.Asked (log : List Event) : Pc → Prop
  | .resolvable => d.senderUri = d.expectedSpiffeUri
  | .rateLimit => d.senderUri = d.expectedSpiffeUri ∧ .resolvable false ∈ log
  | .fallback => d.senderUri = d.expectedSpiffeUri ∧ .resolvable false ∈ log ∧
      .rateLimit true ∈ log ∧ d.remoteAddress = ""
  | .gate host => d.senderUri = d.expectedSpiffeUri ∧ .resolvable false ∈ log ∧
      .rateLimit true ∈ log ∧ d.remoteAddress = "" ∧ .fallback (some host) ∈ log
  | _ => True

theorem InboundDeps.asked_of_isGate {pc : Pc} (h : pc.isGate = false) : d.Asked log pc := by
  cases pc with
  | resolvable | rateLimit | fallback | gate _ => cases h
  | fetching _ _ _ | delaying _ _ _ | recording _ | auditing | returned _ | threw _ => trivial

variable {d}

section Gates

variable (heach : Each (Sound d.toCommon d.Ready) log) (hlog : OnlyGates log)

include heach hlog

theorem InboundDeps.holds_fetchFallback {host : String} (hasked : d.Asked log (.gate host))
    (hgate : d.gatesFallback = true → .gate host true ∈ log) :
    Holds d.toCommon d.Ready (d.fetchFallback host log) := by
  obtain ⟨hsender, hresolvable, hrate, hempty, hfallback⟩ := hasked
  have hready : d.Ready log (httpsEndpoint host d.port) (some d.expectedSpiffeUri) :=
    ⟨hsender, hresolvable, hrate, .inr ⟨hempty, rfl, host, rfl, hfallback, hgate⟩⟩
  exact holds_firstFetch heach hlog hready (hready.mono d _)

theorem InboundDeps.holds_chooseAddress (hsender : d.senderUri = d.expectedSpiffeUri)
    (hresolvable : .resolvable false ∈ log) (hrate : .rateLimit true ∈ log) :
    Holds d.toCommon d.Ready (d.chooseAddress log) ∧
      d.Asked (d.chooseAddress log).log (d.chooseAddress log).pc := by
  unfold InboundDeps.chooseAddress
  split_ifs with haddress hfallback
  · have hready : d.Ready log (httpsEndpoint d.remoteAddress d.port) none :=
      ⟨hsender, hresolvable, hrate, .inl ⟨haddress, rfl, rfl⟩⟩
    exact ⟨holds_firstFetch heach hlog hready (hready.mono d _), trivial⟩
  · exact ⟨⟨heach, hlog⟩, hsender, hresolvable, hrate, not_not.mp haddress⟩
  · exact ⟨holds_returned heach hlog (by simp), trivial⟩

/-! ### The answers at the gates -/

theorem InboundDeps.holds_resolvable (hasked : d.Asked log .resolvable) {resolvable : Bool}
    (hstep : d.step ⟨.resolvable, log⟩ (.bool resolvable) = some s') :
    Holds d.toCommon d.Ready s' ∧ d.Asked s'.log s'.pc := by
  have heach' := each_ask heach (.resolvable resolvable) rfl
  have hlog' := OnlyGates.ask hlog (.resolvable resolvable) rfl
  obtain rfl := Option.some.inj hstep
  cases resolvable with
  | true => exact ⟨holds_returned heach' hlog' (by simp), trivial⟩
  | false => exact ⟨⟨heach', hlog'⟩, hasked, List.mem_append_right _ List.mem_cons_self⟩

theorem InboundDeps.holds_rateLimit (hasked : d.Asked log .rateLimit) {allowed : Bool}
    (hstep : d.step ⟨.rateLimit, log⟩ (.bool allowed) = some s') :
    Holds d.toCommon d.Ready s' ∧ d.Asked s'.log s'.pc := by
  have heach' := each_ask heach (.rateLimit allowed) rfl
  have hlog' := OnlyGates.ask hlog (.rateLimit allowed) rfl
  obtain rfl := Option.some.inj hstep
  cases allowed with
  | false => exact ⟨holds_returned heach' hlog' (by simp), trivial⟩
  | true =>
      exact InboundDeps.holds_chooseAddress heach' hlog' hasked.1 (List.mem_append_left _ hasked.2)
        (List.mem_append_right _ List.mem_cons_self)

theorem InboundDeps.holds_fallback (hasked : d.Asked log .fallback) {address : Option String}
    (hstep : d.step ⟨.fallback, log⟩ (.address address) = some s') :
    Holds d.toCommon d.Ready s' ∧ d.Asked s'.log s'.pc := by
  have heach' := each_ask heach (.fallback address) rfl
  have hlog' := OnlyGates.ask hlog (.fallback address) rfl
  obtain ⟨hsender, hresolvable, hrate, hempty⟩ := hasked
  unfold InboundDeps.step at hstep
  dsimp only at hstep
  split at hstep
  · obtain rfl := Option.some.inj hstep
    exact ⟨holds_returned heach' hlog' (by simp), trivial⟩
  · next host hhost =>
      obtain ⟨rfl, -⟩ := Option.filter_eq_some_iff.mp hhost
      have hknown : d.Asked (log ++ [.fallback (some host)]) (.gate host) :=
        ⟨hsender, List.mem_append_left _ hresolvable, List.mem_append_left _ hrate, hempty,
          List.mem_append_right _ List.mem_cons_self⟩
      split_ifs at hstep with hpinned hgates
      · obtain rfl := Option.some.inj hstep
        exact ⟨holds_returned heach' hlog' (by simp), trivial⟩
      · obtain rfl := Option.some.inj hstep
        exact ⟨⟨heach', hlog'⟩, hknown⟩
      · -- without a gate the known address is fetched from at once
        obtain rfl := Option.some.inj hstep
        exact ⟨InboundDeps.holds_fetchFallback heach' hlog' hknown fun h => absurd h hgates, trivial⟩

theorem InboundDeps.holds_gate {host : String} (hasked : d.Asked log (.gate host)) {allowed : Bool}
    (hstep : d.step ⟨.gate host, log⟩ (.bool allowed) = some s') :
    Holds d.toCommon d.Ready s' ∧ d.Asked s'.log s'.pc := by
  have heach' := each_ask heach (.gate host allowed) rfl
  have hlog' := OnlyGates.ask hlog (.gate host allowed) rfl
  obtain ⟨hsender, hresolvable, hrate, hempty, hfallback⟩ := hasked
  obtain rfl := Option.some.inj hstep
  cases allowed with
  | false => exact ⟨holds_returned heach' hlog' (by simp), trivial⟩
  | true =>
      have hknown : d.Asked (log ++ [.gate host true]) (.gate host) :=
        ⟨hsender, List.mem_append_left _ hresolvable, List.mem_append_left _ hrate, hempty,
          List.mem_append_left _ hfallback⟩
      exact ⟨InboundDeps.holds_fetchFallback heach' hlog' hknown
        fun _ => List.mem_append_right _ List.mem_cons_self, trivial⟩

end Gates

theorem InboundDeps.step_holds (h : Holds d.toCommon d.Ready s) (hasked : d.Asked s.log s.pc)
    {answer : Answer} (hstep : d.step s answer = some s') :
    Holds d.toCommon d.Ready s' ∧ d.Asked s'.log s'.pc := by
  have hcommon : d.toCommon.step s answer = some s' →
      Holds d.toCommon d.Ready s' ∧ d.Asked s'.log s'.pc := fun hstep =>
    ⟨holds_step (fun _ _ _ event h => h.mono d event) h hstep,
      d.asked_of_isGate (isGate_of_step hstep)⟩
  obtain ⟨pc, log⟩ := s
  obtain ⟨heach, hat⟩ := h
  -- an exception of a gate ends the learner, and nothing was fetched before
  have hthrows (hlog : OnlyGates log) (heq : some ⟨.threw .gates, log⟩ = some s') :
      Holds d.toCommon d.Ready s' ∧ d.Asked s'.log s'.pc := by
    obtain rfl := Option.some.inj heq
    exact ⟨holds_threw heach hlog, trivial⟩
  dsimp only at heach hat hasked
  cases pc with
  | resolvable =>
      cases answer with
      | bool _ => exact InboundDeps.holds_resolvable heach hat hasked hstep
      | throws => exact hthrows hat hstep
      | address _ | card _ | done => exact hcommon hstep
  | rateLimit =>
      cases answer with
      | bool _ => exact InboundDeps.holds_rateLimit heach hat hasked hstep
      | throws => exact hthrows hat hstep
      | address _ | card _ | done => exact hcommon hstep
  | fallback =>
      cases answer with
      | address _ => exact InboundDeps.holds_fallback heach hat hasked hstep
      | throws => exact hthrows hat hstep
      | bool _ | card _ | done => exact hcommon hstep
  | gate host =>
      cases answer with
      | bool _ => exact InboundDeps.holds_gate heach hat hasked hstep
      | throws => exact hthrows hat hstep
      | address _ | card _ | done => exact hcommon hstep
  | fetching _ _ _ | delaying _ _ _ | recording _ | auditing | returned _ | threw _ =>
      exact hcommon hstep

theorem InboundDeps.law (hs : d.machine.Reachable s) : LearnerLaw d.toCommon d.Ready s := by
  have hholds : Holds d.toCommon d.Ready s ∧ d.Asked s.log s.pc := by
    apply hs.invariant
    · unfold InboundDeps.machine
      dsimp only
      split_ifs with hsender
      · exact ⟨holds_returned each_nil ⟨rfl, rfl, rfl⟩ (by simp), trivial⟩
      · exact ⟨⟨each_nil, rfl, rfl, rfl⟩, not_not.mp hsender⟩
    · intro s a s' h hstep
      exact InboundDeps.step_holds h.1 h.2 hstep
  exact hholds.1.law

end Inbound

/-! ## At boot -/

section Boot

variable (d : RelearnDeps) {s s' : Run} {log : List Event}

/-- Every fetch is pinned, from the endpoint of the target, and the gate allowed its host. -/
def RelearnDeps.Ready (before : List Event) (endpoint : String) (pin : Option String) : Prop :=
  .resolvable false ∈ before ∧ .gate d.host true ∈ before ∧ .rateLimit true ∈ before ∧
    pin = some d.expectedSpiffeUri ∧ endpoint = d.endpoint

theorem RelearnDeps.Ready.mono {endpoint : String} {pin : Option String} (event : Event)
    (h : d.Ready log endpoint pin) : d.Ready (log ++ [event]) endpoint pin :=
  ⟨List.mem_append_left _ h.1, List.mem_append_left _ h.2.1, List.mem_append_left _ h.2.2.1,
    h.2.2.2⟩

def RelearnDeps.Asked (log : List Event) : Pc → Prop
  | .gate host => host = d.host ∧ .resolvable false ∈ log
  | .rateLimit => .resolvable false ∈ log ∧ .gate d.host true ∈ log
  | _ => True

theorem RelearnDeps.asked_of_isGate {pc : Pc} (h : pc.isGate = false) : d.Asked log pc := by
  cases pc with
  | resolvable | rateLimit | fallback | gate _ => cases h
  | fetching _ _ _ | delaying _ _ _ | recording _ | auditing | returned _ | threw _ => trivial

variable {d}

section Gates

variable (heach : Each (Sound d.toCommon d.Ready) log) (hlog : OnlyGates log)

include heach hlog

theorem RelearnDeps.holds_resolvable {resolvable : Bool}
    (hstep : d.step ⟨.resolvable, log⟩ (.bool resolvable) = some s') :
    Holds d.toCommon d.Ready s' ∧ d.Asked s'.log s'.pc := by
  have heach' := each_ask heach (.resolvable resolvable) rfl
  have hlog' := OnlyGates.ask hlog (.resolvable resolvable) rfl
  obtain rfl := Option.some.inj hstep
  cases resolvable with
  | true => exact ⟨holds_returned heach' hlog' (by simp), trivial⟩
  | false => exact ⟨⟨heach', hlog'⟩, rfl, List.mem_append_right _ List.mem_cons_self⟩

theorem RelearnDeps.holds_gate {host : String} (hasked : d.Asked log (.gate host)) {allowed : Bool}
    (hstep : d.step ⟨.gate host, log⟩ (.bool allowed) = some s') :
    Holds d.toCommon d.Ready s' ∧ d.Asked s'.log s'.pc := by
  have heach' := each_ask heach (.gate host allowed) rfl
  have hlog' := OnlyGates.ask hlog (.gate host allowed) rfl
  -- the gate is asked about the host of the target only
  obtain ⟨rfl, hresolvable⟩ := hasked
  obtain rfl := Option.some.inj hstep
  cases allowed with
  | false => exact ⟨holds_returned heach' hlog' (by simp), trivial⟩
  | true =>
      exact ⟨⟨heach', hlog'⟩, List.mem_append_left _ hresolvable,
        List.mem_append_right _ List.mem_cons_self⟩

theorem RelearnDeps.holds_rateLimit (hasked : d.Asked log .rateLimit) {allowed : Bool}
    (hstep : d.step ⟨.rateLimit, log⟩ (.bool allowed) = some s') :
    Holds d.toCommon d.Ready s' ∧ d.Asked s'.log s'.pc := by
  have heach' := each_ask heach (.rateLimit allowed) rfl
  have hlog' := OnlyGates.ask hlog (.rateLimit allowed) rfl
  obtain ⟨hresolvable, hgate⟩ := hasked
  obtain rfl := Option.some.inj hstep
  cases allowed with
  | false => exact ⟨holds_returned heach' hlog' (by simp), trivial⟩
  | true =>
      -- the last of the three questions has its answer
      have hready : d.Ready (log ++ [.rateLimit true]) d.endpoint (some d.expectedSpiffeUri) :=
        ⟨List.mem_append_left _ hresolvable, List.mem_append_left _ hgate,
          List.mem_append_right _ List.mem_cons_self, rfl, rfl⟩
      exact ⟨holds_firstFetch heach' hlog' hready (hready.mono d _), trivial⟩

end Gates

theorem RelearnDeps.step_holds (h : Holds d.toCommon d.Ready s) (hasked : d.Asked s.log s.pc)
    {answer : Answer} (hstep : d.step s answer = some s') :
    Holds d.toCommon d.Ready s' ∧ d.Asked s'.log s'.pc := by
  have hcommon : d.toCommon.step s answer = some s' →
      Holds d.toCommon d.Ready s' ∧ d.Asked s'.log s'.pc := fun hstep =>
    ⟨holds_step (fun _ _ _ event h => h.mono d event) h hstep,
      d.asked_of_isGate (isGate_of_step hstep)⟩
  obtain ⟨pc, log⟩ := s
  obtain ⟨heach, hat⟩ := h
  -- as before, an exception of a gate ends the learner
  have hthrows (hlog : OnlyGates log) (heq : some ⟨.threw .gates, log⟩ = some s') :
      Holds d.toCommon d.Ready s' ∧ d.Asked s'.log s'.pc := by
    obtain rfl := Option.some.inj heq
    exact ⟨holds_threw heach hlog, trivial⟩
  dsimp only at heach hat hasked
  cases pc with
  | resolvable =>
      cases answer with
      | bool _ => exact RelearnDeps.holds_resolvable heach hat hstep
      | throws => exact hthrows hat hstep
      | address _ | card _ | done => exact hcommon hstep
  | gate host =>
      cases answer with
      | bool _ => exact RelearnDeps.holds_gate heach hat hasked hstep
      | throws => exact hthrows hat hstep
      | address _ | card _ | done => exact hcommon hstep
  | rateLimit =>
      cases answer with
      | bool _ => exact RelearnDeps.holds_rateLimit heach hat hasked hstep
      | throws => exact hthrows hat hstep
      | address _ | card _ | done => exact hcommon hstep
  | fallback | fetching _ _ _ | delaying _ _ _ | recording _ | auditing | returned _ | threw _ =>
      exact hcommon hstep

theorem RelearnDeps.law (hs : d.machine.Reachable s) : LearnerLaw d.toCommon d.Ready s := by
  have hholds : Holds d.toCommon d.Ready s ∧ d.Asked s.log s.pc := by
    apply hs.invariant
    · exact ⟨⟨each_nil, rfl, rfl, rfl⟩, trivial⟩
    · intro s a s' h hstep
      exact RelearnDeps.step_holds h.1 h.2 hstep
  exact hholds.1.law

end Boot

/-! ## The law -/

/-- Both learners keep to the law in every run: whatever the injected functions answer, throw or
leave unanswered. -/
theorem learning_law :
    (∀ (d : InboundDeps) (s : Run), d.machine.Reachable s → LearnerLaw d.toCommon d.Ready s) ∧
      ∀ (d : RelearnDeps) (s : Run), d.machine.Reachable s → LearnerLaw d.toCommon d.Ready s :=
  ⟨fun _ _ hs => InboundDeps.law hs, fun _ _ hs => RelearnDeps.law hs⟩

def sampleCommon (maxFetchAttempts : Option ℚ) : Common where
  peerId := "p"
  expectedSpiffeUri := "spiffe://thinklocal/node/p"
  certFingerprint := ""
  maxFetchAttempts := maxFetchAttempts
  fetchBackoffMs := some []
  audits := false

def sampleRelearn (maxFetchAttempts : Option ℚ) : RelearnDeps where
  toCommon := sampleCommon maxFetchAttempts
  endpoint := "https://10.0.0.2:9440"
  host := "10.0.0.2"

/-- A connection without a source address, and a known address that nothing gates. -/
def sampleInbound : InboundDeps where
  toCommon := sampleCommon none
  senderUri := "spiffe://thinklocal/node/p"
  remoteAddress := ""
  port := 9440
  resolvesFallback := true
  gatesFallback := false
  fetchesPinned := true

def sampleCard : FetchedCard where
  spiffeUri := some "spiffe://thinklocal/node/p"
  publicKey := some "key"

/-- A learner records after one rejected fetch. -/
theorem learning_law_records : ∃ s : Run, s.pc = .returned .recorded ∧
    LearnerLaw (sampleRelearn none).toCommon (sampleRelearn none).Ready s := by
  have hrun : ((sampleRelearn none).machine.runFrom (sampleRelearn none).machine.init
      [.bool false, .bool true, .bool true, .throws, .done, .card (some sampleCard), .done]).map
      (fun s => s.pc) = some (.returned .recorded) := by
    decide +kernel
  obtain ⟨s, hs, hpc⟩ := Option.map_eq_some_iff.mp hrun
  exact ⟨s, hpc, learning_law.2 _ s (Machine.reachable_of_runFrom hs)⟩

/-- Without a gate an address is fetched from that no gate allowed; at most `2.5` attempts are three;
and where `record` throws after it was called the learner does not return. -/
theorem learners_ungated :
    (∃ s : Run, sampleInbound.machine.Reachable s ∧ sampleInbound.remoteAddress = "" ∧
      s.log = [.resolvable false, .rateLimit true, .fallback (some "10.0.0.2"),
        .fetch "https://10.0.0.2:9440" (some "spiffe://thinklocal/node/p")]) ∧
    (∃ s : Run, (sampleRelearn (some (5 / 2))).machine.Reachable s ∧
      ¬ (fetches s.log : ℚ) ≤ max 1 (5 / 2)) ∧
    (∃ s : Run, (sampleRelearn none).machine.Reachable s ∧ (records s.log).length = 1 ∧
      s.pc = .threw .record) := by
  refine ⟨?_, ?_, ?_⟩
  · have hrun : (sampleInbound.machine.runFrom sampleInbound.machine.init
        [.bool false, .bool true, .address (some "10.0.0.2")]).map (fun s => s.log) =
        some [.resolvable false, .rateLimit true, .fallback (some "10.0.0.2"),
          .fetch "https://10.0.0.2:9440" (some "spiffe://thinklocal/node/p")] := by
      decide +kernel
    obtain ⟨s, hs, hlog⟩ := Option.map_eq_some_iff.mp hrun
    exact ⟨s, Machine.reachable_of_runFrom hs, rfl, hlog⟩
  · have hrun : ((sampleRelearn (some (5 / 2))).machine.runFrom
        (sampleRelearn (some (5 / 2))).machine.init
        [.bool false, .bool true, .bool true, .throws, .done, .throws, .done]).map
        (fun s => fetches s.log) = some 3 := by
      decide +kernel
    obtain ⟨s, hs, hfetches⟩ := Option.map_eq_some_iff.mp hrun
    refine ⟨s, Machine.reachable_of_runFrom hs, ?_⟩
    rw [hfetches]
    -- three attempts are more than two and a half
    norm_num
  · have hrun : ((sampleRelearn none).machine.runFrom (sampleRelearn none).machine.init
        [.bool false, .bool true, .bool true, .card (some sampleCard), .throws]).map
        (fun s => ((records s.log).length, s.pc)) = some (1, .threw .record) := by
      decide +kernel
    obtain ⟨s, hs, h⟩ := Option.map_eq_some_iff.mp hrun
    obtain ⟨hrecords, hpc⟩ := Prod.mk.inj h
    exact ⟨s, Machine.reachable_of_runFrom hs, hrecords, hpc⟩

end ThinkLocal.Mesh.Learner
