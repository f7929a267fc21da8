import ThinkLocal.Foundation.Machine
import ThinkLocal.Registry.SkillManager

/-!
# Announcements and synchronisation

The messages of one owner at one receiver, in the order of their sending.  `REGISTRY_SYNC` carries the
owner's dates, and an entry with such a date is never fresher than what the owner sends later.
`SKILL_ANNOUNCE` carries no date; the entry has the receiver's clock, and a newer state is ignored as
long as the owner's date is not past that clock.
-/

namespace ThinkLocal.Registry

open Foundation CapabilityRegistry

/-! ## What an entry shows -/

/-- A text in an entry. -/
def textField (entry : Option Json) (field : String) : Option String :=
  match Json.propertyOrUndefined entry field with
  | some (.string text) => some text
  | _ => none

/-- The version and the description of the entry are those of the state. -/
def ShowsState (entry : Option Json) (state : Capability) : Prop :=
  textField entry "version" = some state.version ∧
    textField entry "description" = some state.description

instance (entry : Option Json) (state : Capability) : Decidable (ShowsState entry state) :=
  inferInstanceAs (Decidable (_ ∧ _))

/-- The entry also has the date of the state. -/
structure Holding (entry : Option Json) (state : Capability) : Prop where
  shows_state : ShowsState entry state
  date : textField entry "updated_at" = some state.updated_at

/-- The same state, perhaps with other availability. -/
structure Same (a b : Capability) : Prop where
  version : a.version = b.version
  description : a.description = b.description
  updated_at : a.updated_at = b.updated_at

/-- The state `b` is `a` or was reached later. -/
def NotAfter (dates : Dates) (a b : Capability) : Prop :=
  Same a b ∨ laterThan (dates.ofText b.updated_at) (dates.ofText a.updated_at) = true

variable {dates : Dates} {existing : Option Json} {a b c state : Capability}

theorem Same.symm (h : Same a b) : Same b a :=
  ⟨h.version.symm, h.description.symm, h.updated_at.symm⟩

theorem Same.trans (hab : Same a b) (hbc : Same b c) : Same a c :=
  ⟨hab.version.trans hbc.version, hab.description.trans hbc.description,
    hab.updated_at.trans hbc.updated_at⟩

theorem ShowsState.same (h : ShowsState existing a) (hsame : Same a b) : ShowsState existing b :=
  ⟨hsame.version ▸ h.1, hsame.description ▸ h.2⟩

theorem NotAfter.same (h : NotAfter dates a b) (hsame : Same b c) : NotAfter dates a c := by
  rcases h with h | h
  · exact .inl (h.trans hsame)
  · exact .inr (hsame.updated_at ▸ h)

theorem NotAfter.later (h : NotAfter dates a b)
    (hlater : laterThan (dates.ofText c.updated_at) (dates.ofText b.updated_at) = true) :
    NotAfter dates a c := by
  rcases h with h | h
  · exact .inr (h.updated_at ▸ hlater)
  · exact .inr (laterThan_trans hlater h)

theorem replaces_same (h : Same a b) : replaces dates a existing = replaces dates b existing := by
  unfold replaces
  rw [h.updated_at]

theorem property_of_textField {field text : String} (h : textField existing field = some text) :
    Json.propertyOrUndefined existing field = some (.string text) := by
  unfold textField at h
  split at h
  · next heq =>
      obtain rfl := Option.some.inj h
      exact heq
  · cases h

theorem truthy_of_textField {field text : String} (h : textField existing field = some text) :
    Json.truthy existing = true := by
  have hproperty := property_of_textField h
  unfold Json.propertyOrUndefined at hproperty
  split at hproperty
  · rfl
  · cases hproperty

/-- Against an entry of the owner the dates decide. -/
theorem Holding.replaces (h : Holding existing a) : replaces dates b existing =
    some (laterThan (dates.ofText b.updated_at) (dates.ofText a.updated_at)) := by
  rw [CapabilityRegistry.replaces, if_pos (truthy_of_textField h.date),
    property_of_textField h.date]
  rfl

theorem Holding.readable (h : Holding existing a) : Readable dates existing := by
  have hsome : (CapabilityRegistry.replaces dates a existing).isSome := by
    rw [h.replaces]
    rfl
  exact replaces_isSome.mp hsome

theorem holding_entry (state : Capability) : Holding (some state.entry) state := by
  have hfield : ∀ field, field ∉ nonCrdtFields →
      Json.propertyOrUndefined (some state.entry) field = lookup state.toFields field :=
    fun field hfield => lookup_stripNonCrdtFields _ hfield
  constructor
  · constructor
    · rw [textField, hfield _ (by decide)]
      rfl
    · rw [textField, hfield _ (by decide)]
      rfl
  · rw [textField, hfield _ (by decide)]
    rfl

/-- What an announcement registers has the receiver's date. -/
theorem holding_registered (cap : Capability) (now : String) :
    Holding (some (registered cap now)) { cap with updated_at := now } := by
  have hfield : ∀ field, Json.propertyOrUndefined (some (registered cap now)) field =
      if field = "updated_at" then some (.string now)
      else lookup (stripNonCrdtFields cap.toFields) field :=
    fun field => lookup_insertField _ _ _ _
  constructor
  · constructor
    · rw [textField, hfield, if_neg (by decide), lookup_stripNonCrdtFields _ (by decide)]
      rfl
    · rw [textField, hfield, if_neg (by decide), lookup_stripNonCrdtFields _ (by decide)]
      rfl
  · rw [textField, hfield, if_pos rfl]

/-! ## The machine -/

/-- A message of the owner with its states at the sending. -/
inductive OwnerMessage
  | announce (states : List Capability)
  | sync (states : List Capability)

def OwnerMessage.states : OwnerMessage → List Capability
  | .announce states => states
  | .sync states => states

/-- The manifest of a state. -/
def Capability.manifest (cap : Capability) : SkillManifest where
  id := cap.skill_id
  version := cap.version
  description := cap.description
  category := cap.category
  permissions := cap.permissions

/-- An owner, what it has sent and a receiver. -/
structure OwnerFeed where
  /-- The receiver's registry. -/
  registry : CapabilityRegistry
  /-- The skills that the receiver holds locally. -/
  localSkills : List String
  /-- The current states of the owner. -/
  owned : InsertionMap String Capability
  channel : List OwnerMessage
  /-- The skills whose entry was last written otherwise than by an import from the owner. -/
  foreign : String → Bool

inductive FeedAction
  | change (state : Capability)
  | announce (skills : List String)
  /-- A sync message, with the fields of the availability of each skill. -/
  | sync (skills : List String) (records : String → Fields)
  | deliver (clock : Nat → String)
  | setLocal (localSkills : List String)
  /-- Whatever else the receiver does with its registry. -/
  | other (r : CapabilityRegistry)

/-- The owner's states of some skills. -/
def OwnerFeed.current (s : OwnerFeed) (skills : List String) : List Capability :=
  skills.filterMap s.owned.get

/-- The entry of a skill of the owner at the receiver. -/
def OwnerFeed.entry (owner : String) (s : OwnerFeed) (skill : String) : Option Json :=
  docEntry s.registry.capabilities (makeKey owner skill)

/-- Another entry stands where an entry was. -/
def overwritten (before after : Option Json) : Bool :=
  after.isSome && (before.isNone ||
    decide (["version", "description", "updated_at"].map (textField after) ≠
      ["version", "description", "updated_at"].map (textField before)))

theorem eq_none_of_overwritten {after : Option Json} (h : overwritten none after = false) :
    after = none := by
  simpa [overwritten] using h

theorem Holding.of_overwritten {before after : Option Json} (hholds : Holding before state)
    (h : overwritten before after = false) : after = none ∨ Holding after state := by
  unfold overwritten at h
  rcases Bool.and_eq_false_iff.mp h with hnone | hsame
  · exact .inl (by simpa using hnone)
  · have hsame := not_not.mp (of_decide_eq_false (Bool.or_eq_false_iff.mp hsame).2)
    simp only [List.map_cons, List.map_nil, List.cons.injEq, and_true] at hsame
    obtain ⟨hversion, hdescription, hdate⟩ := hsame
    exact .inr ⟨⟨hversion.trans hholds.shows_state.1, hdescription.trans hholds.shows_state.2⟩,
      hdate.trans hholds.date⟩

/-- What the receiver does with a message. -/
def receive (dates : Dates) (owner : String) (s : OwnerFeed) (clock : Nat → String) :
    OwnerMessage → OwnerFeed
  | .announce states =>
      { s with
        registry := (handleAnnounce s.registry s.localSkills clock owner
          (states.map Capability.manifest)).1
        foreign := fun skill => s.foreign skill ||
          decide (skill ∉ s.localSkills ∧ ∃ state ∈ states, state.skill_id = skill) }
  | .sync states =>
      { s with
        registry := (importPeerCapabilities dates s.registry states owner (clock 0)).1
        foreign := fun skill => s.foreign skill &&
          decide (∀ state ∈ states, state.skill_id = skill →
            replaces dates state (s.entry owner skill) ≠ some true) }

def feedStep (dates : Dates) (owner : String) (s : OwnerFeed) : FeedAction → Option OwnerFeed
  | .change state =>
      if state.agent_id = owner ∧ (s.owned.get state.skill_id).all fun old =>
          laterThan (dates.ofText state.updated_at) (dates.ofText old.updated_at) then
        some { s with owned := s.owned.set state.skill_id state }
      else none
  | .announce skills => some { s with channel := s.channel ++ [.announce (s.current skills)] }
  | .sync skills records =>
      some { s with channel := s.channel ++ [.sync ((s.current skills).map fun state =>
        { state with extra := records state.skill_id })] }
  | .deliver clock =>
      match s.channel with
      | [] => none
      | message :: rest => some (receive dates owner { s with channel := rest } clock message)
  | .setLocal localSkills => some { s with localSkills := localSkills }
  | .other r =>
      some { s with
        registry := r
        foreign := fun skill => s.foreign skill ||
          overwritten (s.entry owner skill) (docEntry r.capabilities (makeKey owner skill)) }

def ownerFeed (dates : Dates) (owner : String) : Machine OwnerFeed FeedAction where
  init := ⟨.fresh, [], .empty, [], fun _ => false⟩
  step := feedStep dates owner

/-- The document is a map whose entries of the owner can be compared. -/
def Sound (dates : Dates) (owner : String) (doc : Option Json) : Prop :=
  ∃ fields, doc = some (.object fields) ∧
    ∀ skill, Readable dates (lookup fields (makeKey owner skill))

/-- The states of the next message if it is a sync message. -/
def OwnerFeed.nextSync (s : OwnerFeed) : List Capability :=
  match s.channel with
  | .sync states :: _ => states
  | _ => []

/-- No state arrives by a sync message where the entry was written otherwise, with a date that the
state does not pass and with another version or description; and whatever else happens to the
document, its entries can be compared. -/
def Undisturbed (dates : Dates) (owner : String) (s : OwnerFeed) : FeedAction → Prop
  | .deliver _ => ∀ state ∈ s.nextSync, state.skill_id ∉ s.localSkills →
      s.foreign state.skill_id = true →
        replaces dates state (s.entry owner state.skill_id) = some true ∨
          ShowsState (s.entry owner state.skill_id) state
  | .other r => Sound dates owner r.capabilities
  | _ => True

/-! ## The invariant -/

variable {owner : String} {s s' : OwnerFeed} {states rest : List Capability}

/-- The states on their way. -/
def OwnerFeed.pending (s : OwnerFeed) : List Capability := s.channel.flatMap OwnerMessage.states

theorem Sound.readable {doc : Option Json} {fields : Fields} (h : Sound dates owner doc)
    (hdoc : doc = some (.object fields)) (skill : String) :
    Readable dates (lookup fields (makeKey owner skill)) := by
  obtain ⟨found, hfound, hreadable⟩ := h
  rw [hdoc] at hfound
  cases hfound
  exact hreadable skill

/-- The owner reached the state before those on their way. -/
structure Before (dates : Dates) (s : OwnerFeed) (a : Capability) : Prop where
  pending : ∀ b ∈ s.pending, b.skill_id = a.skill_id → NotAfter dates a b
  owned : ∃ b, s.owned.get a.skill_id = some b ∧ NotAfter dates a b

structure FeedInv (dates : Dates) (owner : String) (s : OwnerFeed) : Prop where
  sound : Sound dates owner s.registry.capabilities
  owned : ∀ skill state, s.owned.get skill = some state →
    state.agent_id = owner ∧ state.skill_id = skill
  sender : ∀ state ∈ s.pending, state.agent_id = owner
  /-- The states of one skill in one message are the same. -/
  agreed : ∀ message ∈ s.channel, ∀ a ∈ message.states, ∀ b ∈ message.states,
    a.skill_id = b.skill_id → Same a b
  ordered : s.pending.Pairwise fun a b => a.skill_id = b.skill_id → NotAfter dates a b
  upTo : ∀ a ∈ s.pending, ∃ b, s.owned.get a.skill_id = some b ∧ NotAfter dates a b
  /-- An entry that an import wrote last is not after what is on its way. -/
  stored : ∀ skill, s.foreign skill = false → s.entry owner skill = none ∨
    ∃ a, a.skill_id = skill ∧ Holding (s.entry owner skill) a ∧ Before dates s a

theorem feedInv_init : FeedInv dates owner (ownerFeed dates owner).init where
  sound := ⟨[], rfl, fun _ => nofun⟩
  owned := nofun
  sender := nofun
  agreed := nofun
  ordered := .nil
  upTo := nofun
  stored := fun _ _ => .inl rfl

/-- The owner reaches another state. -/
theorem FeedInv.change (h : FeedInv dates owner s) {state : Capability}
    (hstep : feedStep dates owner s (.change state) = some s') : FeedInv dates owner s' := by
  dsimp only [feedStep] at hstep
  split_ifs at hstep with hguard
  obtain rfl := Option.some.inj hstep
  obtain ⟨howner, hlater⟩ := hguard
  have howned : ∀ a : Capability, (∃ b, s.owned.get a.skill_id = some b ∧ NotAfter dates a b) →
      ∃ b, (s.owned.set state.skill_id state).get a.skill_id = some b ∧ NotAfter dates a b := by
    intro a ⟨b, hb, hab⟩
    by_cases hskill : a.skill_id = state.skill_id
    · rw [hskill] at hb ⊢
      rw [hb] at hlater
      exact ⟨state, InsertionMap.get_set_self _ _ _, hab.later hlater⟩
    · exact ⟨b, (InsertionMap.get_set_of_ne _ _ hskill).trans hb, hab⟩
  exact
    { h with
      owned := fun skill found hfound => by
        by_cases hskill : skill = state.skill_id
        · rw [hskill, InsertionMap.get_set_self] at hfound
          obtain rfl := Option.some.inj hfound
          exact ⟨howner, hskill.symm⟩
        · rw [InsertionMap.get_set_of_ne _ _ hskill] at hfound
          exact h.owned skill found hfound
      upTo := fun a ha => howned a (h.upTo a ha)
      stored := fun skill hskill => (h.stored skill hskill).imp_right fun ⟨a, ha, hholds, hbefore⟩ =>
        ⟨a, ha, hholds, hbefore.pending, howned a hbefore.owned⟩ }

/-- The states of a message as it is sent. -/
def Current (owner : String) (s : OwnerFeed) (states : List Capability) : Prop :=
  ∀ a ∈ states, a.agent_id = owner ∧ ∃ b, s.owned.get a.skill_id = some b ∧ Same b a

theorem FeedInv.current (h : FeedInv dates owner s) (skills : List String)
    (records : Capability → Fields) :
    Current owner s ((s.current skills).map fun state =>
      { state with extra := records state }) := by
  intro a ha
  obtain ⟨b, hb, rfl⟩ := List.mem_map.mp ha
  obtain ⟨skill, -, hskill⟩ := List.mem_filterMap.mp hb
  obtain ⟨howner, rfl⟩ := h.owned skill b hskill
  exact ⟨howner, b, hskill, rfl, rfl, rfl⟩

theorem Current.agree (h : Current owner s states) (ha : a ∈ states) (hb : b ∈ states)
    (hskill : a.skill_id = b.skill_id) : Same a b := by
  obtain ⟨-, c, hc, hca⟩ := h a ha
  obtain ⟨-, d, hd, hdb⟩ := h b hb
  rw [hskill, hd] at hc
  obtain rfl := Option.some.inj hc
  exact hca.symm.trans hdb

theorem FeedInv.send (h : FeedInv dates owner s) {message : OwnerMessage}
    (hcurrent : Current owner s message.states) :
    FeedInv dates owner { s with channel := s.channel ++ [message] } := by
  have hpending : OwnerFeed.pending { s with channel := s.channel ++ [message] } =
      s.pending ++ message.states := by
    rw [OwnerFeed.pending, List.flatMap_append, List.flatMap_singleton]
    rfl
  -- what was reached before the current states was reached before those sent
  have hsent : ∀ a : Capability, (∃ b, s.owned.get a.skill_id = some b ∧ NotAfter dates a b) →
      ∀ b ∈ message.states, b.skill_id = a.skill_id → NotAfter dates a b := by
    intro a ⟨c, hc, hac⟩ b hb hskill
    obtain ⟨-, d, hd, hdb⟩ := hcurrent b hb
    rw [hskill, hc] at hd
    obtain rfl := Option.some.inj hd
    exact hac.same hdb
  have hbefore : ∀ a, Before dates s a →
      Before dates { s with channel := s.channel ++ [message] } a := by
    intro a ha
    refine ⟨fun b hb hskill => ?_, ha.owned⟩
    rw [hpending] at hb
    rcases List.mem_append.mp hb with hb | hb
    · exact ha.pending b hb hskill
    · exact hsent a ha.owned b hb hskill
  exact
    { sound := h.sound
      owned := h.owned
      sender := fun state hstate => by
        rw [hpending] at hstate
        rcases List.mem_append.mp hstate with hstate | hstate
        · exact h.sender state hstate
        · exact (hcurrent state hstate).1
      agreed := fun m hm a ha b hb hskill => by
        rcases List.mem_append.mp hm with hm | hm
        · exact h.agreed m hm a ha b hb hskill
        · obtain rfl := List.mem_singleton.mp hm
          exact hcurrent.agree ha hb hskill
      ordered := by
        rw [hpending, List.pairwise_append]
        refine ⟨h.ordered, ?_, fun a ha b hb hskill => hsent a (h.upTo a ha) b hb hskill.symm⟩
        exact List.pairwise_of_forall_mem_list fun a ha b hb hskill =>
          .inl (hcurrent.agree ha hb hskill)
      upTo := fun a ha => by
        rw [hpending] at ha
        rcases List.mem_append.mp ha with ha | ha
        · exact h.upTo a ha
        · obtain ⟨-, b, hb, hsame⟩ := hcurrent a ha
          exact ⟨b, hb, .inl hsame.symm⟩
      stored := fun skill hskill => (h.stored skill hskill).imp_right fun ⟨a, ha, hholds, hbef⟩ =>
        ⟨a, ha, hholds, hbefore a hbef⟩ }

/-! ## The entries after a message -/

/-- After an import the entry of a skill took the state of the message. -/
theorem import_entry {r : CapabilityRegistry} (now : String)
    (hsound : Sound dates owner r.capabilities)
    (howner : ∀ state ∈ states, state.agent_id = owner)
    (hagreed : ∀ a ∈ states, ∀ b ∈ states, a.skill_id = b.skill_id → Same a b) :
    ∃ fields fields', r.capabilities = some (.object fields) ∧
      (importPeerCapabilities dates r states owner now).1.capabilities = some (.object fields') ∧
      ∀ skill,
        ((∀ state ∈ states, state.skill_id ≠ skill) ∧
          lookup fields' (makeKey owner skill) = lookup fields (makeKey owner skill)) ∨
        ∃ state ∈ states, state.skill_id = skill ∧ lookup fields' (makeKey owner skill) =
          (entryCell dates).take (lookup fields (makeKey owner skill)) state := by
  obtain ⟨fields, hdoc, hreadable⟩ := hsound
  have hkey : ∀ state ∈ states, state.key = makeKey owner state.skill_id := by
    intro state hstate
    rw [Capability.key, howner state hstate]
  have haccepted : accepted states owner = states :=
    List.filter_eq_self.mpr fun state hstate => decide_eq_true (howner state hstate)
  have hbatch : BatchReadable dates states fields := by
    intro state hstate
    rw [hkey state hstate]
    exact hreadable state.skill_id
  obtain ⟨fields', hdoc', hafter⟩ := importDoc_of_readable hbatch
  refine ⟨fields, fields', hdoc, ?_, fun skill => ?_⟩
  · rw [importPeerCapabilities_capabilities, haccepted, hdoc, hdoc']
  · rw [hafter, entryAfter]
    -- the states of one skill are the same, so taking the first one is taking them all
    cases hfilter : states.filter (·.key = makeKey owner skill) with
    | nil =>
        refine .inl ⟨fun state hstate hskill => ?_, rfl⟩
        rw [List.filter_eq_nil_iff] at hfilter
        refine hfilter state hstate (decide_eq_true ?_)
        rw [hkey state hstate, hskill]
    | cons state later =>
        have hmem : ∀ b ∈ state :: later, b ∈ states ∧ b.skill_id = skill := by
          intro b hb
          rw [← hfilter] at hb
          obtain ⟨hb, hbkey⟩ := List.mem_filter.mp hb
          have hbkey := of_decide_eq_true hbkey
          rw [hkey b hb] at hbkey
          exact ⟨hb, makeKey_right_injective hbkey⟩
        obtain ⟨hstate, hskill⟩ := hmem state List.mem_cons_self
        refine .inr ⟨state, hstate, hskill, Freshness.takeAll_cons_of_agree fun b hb existing => ?_⟩
        obtain ⟨hb, hbskill⟩ := hmem b (List.mem_cons_of_mem _ hb)
        have hsame := hagreed b hb state hstate (hbskill.trans hskill.symm)
        have hreplaces : replaces dates b existing = replaces dates state existing :=
          replaces_same hsame
        exact congrArg (fun replace => decide (replace = some true)) hreplaces

/-- After an announcement the entry of a skill that is not held locally is the announced one. -/
theorem announce_entry {r : CapabilityRegistry} (states : List Capability)
    (localSkills : List String) (clock : Nat → String) (hsound : Sound dates owner r.capabilities) :
    ∃ fields fields', r.capabilities = some (.object fields) ∧
      (handleAnnounce r localSkills clock owner (states.map Capability.manifest)).1.capabilities =
        some (.object fields') ∧
      ∀ skill,
        ((skill ∉ localSkills → ∀ state ∈ states, state.skill_id ≠ skill) ∧
          lookup fields' (makeKey owner skill) = lookup fields (makeKey owner skill)) ∨
        ∃ state ∈ states, state.skill_id = skill ∧ skill ∉ localSkills ∧
          ∃ now, Holding (lookup fields' (makeKey owner skill))
            { state with updated_at := now } := by
  obtain ⟨fields, hdoc, -⟩ := hsound
  obtain ⟨fields', count, hafter, hentries⟩ := handleAnnounce_object localSkills
    clock owner r (states.map Capability.manifest) hdoc
  refine ⟨fields, fields', hdoc, congrArg (fun after => after.1.capabilities) hafter,
    fun skill => ?_⟩
  have hentry := hentries (makeKey owner skill)
  -- the last manifest of the skill in the message decides, unless the skill is local
  cases hunder : announcedUnder localSkills owner (makeKey owner skill)
      (states.map Capability.manifest) with
  | none =>
      rw [hunder] at hentry
      refine .inl ⟨fun hlocal state hstate hskill => ?_, hentry⟩
      have hnone := lastMatch_eq_none_iff.mp hunder state.manifest (List.mem_map_of_mem hstate)
      refine of_decide_eq_false hnone ⟨?_, ?_⟩
      · rw [show state.manifest.id = state.skill_id from rfl, hskill]
        exact hlocal
      · rw [show state.manifest.id = state.skill_id from rfl, hskill]
  | some manifest =>
      rw [hunder] at hentry
      obtain ⟨reading, now, hentry⟩ := hentry
      obtain ⟨hmem, hmatch⟩ := mem_of_lastMatch hunder
      obtain ⟨hlocal, hkey⟩ := of_decide_eq_true hmatch
      obtain ⟨state, hstate, rfl⟩ := List.mem_map.mp hmem
      obtain rfl : state.skill_id = skill := makeKey_right_injective hkey
      refine .inr ⟨state, hstate, rfl, hlocal, now, ?_⟩
      rw [hentry]
      exact ⟨(holding_registered _ now).shows_state, (holding_registered _ now).date⟩

/-! ## Delivery -/

section Delivery

variable {message : OwnerMessage} {channel : List OwnerMessage} {clock : Nat → String}

theorem pending_cons (hchannel : s.channel = message :: channel) :
    s.pending = message.states ++ channel.flatMap OwnerMessage.states := by
  rw [OwnerFeed.pending, hchannel, List.flatMap_cons]

/-- Taking the message off the channel. -/
theorem Before.tail (h : Before dates s a) (hchannel : s.channel = message :: channel) {t : OwnerFeed}
    (htchannel : t.channel = channel) (howned : t.owned = s.owned) : Before dates t a := by
  refine ⟨fun b hb => h.pending b ?_, howned ▸ h.owned⟩
  rw [pending_cons hchannel]
  rw [OwnerFeed.pending, htchannel] at hb
  exact List.mem_append_right _ hb

/-- A state of the message was reached before those that are still on their way. -/
theorem FeedInv.before_head (h : FeedInv dates owner s) (hchannel : s.channel = message :: channel)
    {t : OwnerFeed} (htchannel : t.channel = channel) (howned : t.owned = s.owned)
    (ha : a ∈ message.states) : Before dates t a := by
  have hordered := h.ordered
  rw [pending_cons hchannel, List.pairwise_append] at hordered
  refine ⟨fun b hb hskill => ?_, ?_⟩
  · rw [OwnerFeed.pending, htchannel] at hb
    exact hordered.2.2 a ha b hb hskill.symm
  · rw [howned]
    refine h.upTo a ?_
    rw [pending_cons hchannel]
    exact List.mem_append_left _ ha

/-- What is not about the receiver's entries. -/
theorem FeedInv.tail (h : FeedInv dates owner s) (hchannel : s.channel = message :: channel)
    {t : OwnerFeed} (htchannel : t.channel = channel) (howned : t.owned = s.owned)
    (hsound : Sound dates owner t.registry.capabilities)
    (hstored : ∀ skill, t.foreign skill = false → t.entry owner skill = none ∨
      ∃ a, a.skill_id = skill ∧ Holding (t.entry owner skill) a ∧ Before dates t a) :
    FeedInv dates owner t := by
  have hmem : ∀ a ∈ t.pending, a ∈ s.pending := by
    intro a ha
    rw [pending_cons hchannel]
    rw [OwnerFeed.pending, htchannel] at ha
    exact List.mem_append_right _ ha
  have hordered := h.ordered
  rw [pending_cons hchannel, List.pairwise_append] at hordered
  exact
    { sound := hsound
      owned := howned ▸ h.owned
      sender := fun state hstate => h.sender state (hmem state hstate)
      agreed := fun m hm => h.agreed m (by
        rw [htchannel] at hm
        rw [hchannel]
        exact List.mem_cons_of_mem _ hm)
      ordered := by
        rw [OwnerFeed.pending, htchannel]
        exact hordered.2.1
      upTo := fun a ha => howned ▸ h.upTo a (hmem a ha)
      stored := hstored }

theorem OwnerFeed.entry_of_doc {fields : List (String × Json)}
    (hdoc : s.registry.capabilities = some (.object fields)) (skill : String) :
    s.entry owner skill = lookup fields (makeKey owner skill) := by
  rw [OwnerFeed.entry, hdoc]
  rfl

theorem FeedInv.deliver_announce (h : FeedInv dates owner s)
    (hchannel : s.channel = .announce states :: channel) :
    let t := receive dates owner { s with channel := channel } clock (.announce states)
    FeedInv dates owner t ∧ ∀ state ∈ states, state.skill_id ∉ s.localSkills →
      ShowsState (t.entry owner state.skill_id) state := by
  intro t
  obtain ⟨fields, fields', hdoc, hdoc', hentries⟩ := announce_entry states s.localSkills clock
    h.sound
  have hentry : ∀ skill, s.entry owner skill = lookup fields (makeKey owner skill) :=
    OwnerFeed.entry_of_doc hdoc
  have hentry' : ∀ skill, t.entry owner skill = lookup fields' (makeKey owner skill) :=
    OwnerFeed.entry_of_doc hdoc'
  have hreadable := h.sound.readable hdoc
  constructor
  · refine h.tail hchannel rfl rfl ⟨fields', hdoc', fun skill => ?_⟩ fun skill hforeign => ?_
    · rcases hentries skill with ⟨-, hsame⟩ | ⟨state, -, -, -, now, hholds⟩
      · rw [hsame]
        exact hreadable skill
      · exact hholds.readable
    · -- an announced entry counts as foreign, because the receiver has dated it
      obtain ⟨hforeign, hannounced⟩ := Bool.or_eq_false_iff.mp hforeign
      have hannounced := of_decide_eq_false hannounced
      rcases hentries skill with ⟨-, hsame⟩ | ⟨state, hstate, hskill, hlocal, -⟩
      · rw [hentry', hsame, ← hentry]
        exact (h.stored skill hforeign).imp_right fun ⟨a, ha, hholds, hbefore⟩ =>
          ⟨a, ha, hholds, hbefore.tail hchannel rfl rfl⟩
      · exact absurd ⟨hlocal, state, hstate, hskill⟩ hannounced
  · intro state hstate hlocal
    rcases hentries state.skill_id with ⟨hnone, -⟩ | ⟨found, hfound, hskill, -, now, hholds⟩
    · exact absurd rfl (hnone hlocal state hstate)
    · have hsame : Same found state :=
        h.agreed (.announce states) (hchannel ▸ List.mem_cons_self) found hfound state hstate hskill
      rw [hentry']
      exact ⟨hsame.version ▸ hholds.shows_state.1, hsame.description ▸ hholds.shows_state.2⟩

theorem take_of_not_replaces {found : Capability} {existing : Option Json}
    (h : replaces dates found existing ≠ some true) :
    (entryCell dates).take existing found = existing :=
  if_neg fun hbeats => h (of_decide_eq_true hbeats)

section Import

variable (h : FeedInv dates owner s) (hchannel : s.channel = .sync states :: channel)
  (clock : Nat → String)

include h hchannel

/-- An import takes a state of the message for each of its skills, and leaves the other entries. -/
theorem FeedInv.sync_entries :
    let t := receive dates owner { s with channel := channel } clock (.sync states)
    Sound dates owner t.registry.capabilities ∧ ∀ skill,
      (∀ state ∈ states, state.skill_id ≠ skill) ∧ t.entry owner skill = s.entry owner skill ∨
      ∃ found ∈ states, found.skill_id = skill ∧
        t.entry owner skill = (entryCell dates).take (s.entry owner skill) found := by
  intro t
  -- the channel has states of the owner only, so the gate lets all of them in
  have howner : ∀ state ∈ states, state.agent_id = owner := by
    intro state hstate
    refine h.sender state ?_
    rw [pending_cons hchannel]
    exact List.mem_append_left _ hstate
  obtain ⟨fields, fields', hdoc, hdoc', hentries⟩ :=
    import_entry (clock 0) h.sound howner (h.agreed (.sync states) (hchannel ▸ List.mem_cons_self))
  have hentry : ∀ skill, s.entry owner skill = lookup fields (makeKey owner skill) :=
    OwnerFeed.entry_of_doc hdoc
  have hentry' : ∀ skill, t.entry owner skill = lookup fields' (makeKey owner skill) :=
    OwnerFeed.entry_of_doc hdoc'
  have hreadable := h.sound.readable hdoc
  refine ⟨⟨fields', hdoc', fun skill => ?_⟩, fun skill => ?_⟩
  · rcases hentries skill with ⟨-, hsame⟩ | ⟨state, -, -, htake⟩
    · rw [hsame]
      exact hreadable skill
    · rw [htake]
      exact readable_take (hreadable skill)
  · rcases hentries skill with ⟨hnone, hsame⟩ | ⟨found, hfound, hskill, htake⟩
    · exact .inl ⟨hnone, by rw [hentry', hsame, hentry]⟩
    · exact .inr ⟨found, hfound, hskill, by rw [hentry', htake, hentry]⟩

/-- The entry of a skill with a state in the message. -/
theorem FeedInv.sync_taken {state : Capability} (hstate : state ∈ states) :
    ∃ found ∈ states, Same found state ∧ found.skill_id = state.skill_id ∧
      (receive dates owner { s with channel := channel } clock (.sync states)).entry owner
        state.skill_id = (entryCell dates).take (s.entry owner state.skill_id) found := by
  rcases (h.sync_entries hchannel clock).2 state.skill_id with
    ⟨hnone, -⟩ | ⟨found, hfound, hskill, htake⟩
  · exact absurd rfl (hnone state hstate)
  · exact ⟨found, hfound,
      h.agreed (.sync states) (hchannel ▸ List.mem_cons_self) found hfound state hstate hskill, hskill,
      htake⟩

/-- What is stored behind an import was reached before what is on its way. -/
theorem FeedInv.stored_sync {skill : String} :
    let t := receive dates owner { s with channel := channel } clock (.sync states)
    t.foreign skill = false → t.entry owner skill = none ∨
      ∃ a, a.skill_id = skill ∧ Holding (t.entry owner skill) a ∧ Before dates t a := by
  intro t hforeign
  by_cases hreplaced : ∃ state ∈ states, state.skill_id = skill ∧
      replaces dates state (s.entry owner skill) = some true
  · obtain ⟨state, hstate, rfl, hreplaces⟩ := hreplaced
    obtain ⟨found, hfound, hsame, hskill, htake⟩ := h.sync_taken hchannel clock hstate
    rw [take_of_replaces ((replaces_same hsame).trans hreplaces)] at htake
    rw [htake]
    exact .inr ⟨found, hskill, holding_entry found, h.before_head hchannel rfl rfl hfound⟩
  · -- nothing was written, so the entry is foreign if it was
    have hnone : ∀ state ∈ states, state.skill_id = skill →
        replaces dates state (s.entry owner skill) ≠ some true :=
      fun state hstate hskill hreplaces => hreplaced ⟨state, hstate, hskill, hreplaces⟩
    have hbefore : s.foreign skill = false :=
      (Bool.and_eq_false_iff.mp hforeign).resolve_right fun hdecide =>
        of_decide_eq_false hdecide hnone
    have hsame : t.entry owner skill = s.entry owner skill := by
      rcases (h.sync_entries hchannel clock).2 skill with ⟨-, hsame⟩ | ⟨state, hstate, hskill, htake⟩
      · exact hsame
      · exact htake.trans (take_of_not_replaces (hnone state hstate hskill))
    rw [hsame]
    exact (h.stored skill hbefore).imp_right fun ⟨a, ha, hholds, hbefore⟩ =>
      ⟨a, ha, hholds, hbefore.tail hchannel rfl rfl⟩

/-- What an import made of the entries, by whether the states replaced them. -/
theorem FeedInv.deliver_sync :
    let t := receive dates owner { s with channel := channel } clock (.sync states)
    FeedInv dates owner t ∧ ∀ state ∈ states,
      (replaces dates state (s.entry owner state.skill_id) = some true →
        ShowsState (t.entry owner state.skill_id) state) ∧
      (replaces dates state (s.entry owner state.skill_id) ≠ some true →
        t.entry owner state.skill_id = s.entry owner state.skill_id) := by
  intro t
  constructor
  · exact h.tail hchannel rfl rfl (h.sync_entries hchannel clock).1
      fun _ => h.stored_sync hchannel clock
  · intro state hstate
    obtain ⟨found, hfound, hsame, -, htake⟩ := h.sync_taken hchannel clock hstate
    rw [htake]
    constructor
    · intro hreplaces
      rw [take_of_replaces ((replaces_same hsame).trans hreplaces)]
      exact (holding_entry found).shows_state.same hsame
    · intro hreplaces
      exact take_of_not_replaces fun hfound => hreplaces ((replaces_same hsame).symm.trans hfound)

end Import

/-- A state of the message replaces what an import wrote earlier, or is shown already. -/
theorem FeedInv.replaces_or_shown (h : FeedInv dates owner s)
    (hchannel : s.channel = message :: channel) (hstate : state ∈ message.states)
    (hforeign : s.foreign state.skill_id = false) :
    replaces dates state (s.entry owner state.skill_id) = some true ∨
      ShowsState (s.entry owner state.skill_id) state := by
  rcases h.stored state.skill_id hforeign with hnone | ⟨a, ha, hholds, hbefore⟩
  · rw [hnone]
    exact .inl rfl
  · have hmem : state ∈ s.pending := by
      rw [pending_cons hchannel]
      exact List.mem_append_left _ hstate
    rcases hbefore.pending state hmem ha.symm with hsame | hlater
    · exact .inr (hholds.shows_state.same hsame)
    · rw [hholds.replaces, hlater]
      exact .inl rfl

end Delivery

/-! ## Runs -/

theorem FeedInv.step (h : FeedInv dates owner s) {action : FeedAction}
    (hcondition : Undisturbed dates owner s action)
    (hstep : feedStep dates owner s action = some s') : FeedInv dates owner s' := by
  cases action with
  | change state => exact h.change hstep
  | announce skills =>
      obtain rfl := Option.some.inj hstep
      have hcurrent := h.current skills fun state => state.extra
      rw [show (fun state : Capability => { state with extra := state.extra }) = id from rfl,
        List.map_id] at hcurrent
      exact h.send hcurrent
  | sync skills records =>
      obtain rfl := Option.some.inj hstep
      exact h.send (h.current skills fun state => records state.skill_id)
  | deliver clock =>
      dsimp only [feedStep] at hstep
      split at hstep
      · cases hstep
      · next message channel hchannel =>
          obtain rfl := Option.some.inj hstep
          cases message with
          | announce states => exact (h.deliver_announce hchannel).1
          | sync states => exact (h.deliver_sync hchannel clock).1
  | setLocal localSkills =>
      obtain rfl := Option.some.inj hstep
      refine { h with stored := fun skill hskill => ?_ }
      exact (h.stored skill hskill).imp_right fun ⟨a, ha, hholds, hbefore⟩ =>
        ⟨a, ha, hholds, hbefore.pending, hbefore.owned⟩
  | other r =>
      obtain rfl := Option.some.inj hstep
      refine { h with sound := hcondition, stored := fun skill hskill => ?_ }
      obtain ⟨hforeign, hkept⟩ := Bool.or_eq_false_iff.mp hskill
      rcases h.stored skill hforeign with hnone | ⟨a, ha, hholds, hbefore⟩
      · -- an entry that was not there and was not overwritten is still not there
        rw [hnone] at hkept
        exact .inl (eq_none_of_overwritten hkept)
      · rcases hholds.of_overwritten hkept with hnone | hholds
        · exact .inl hnone
        · exact .inr ⟨a, ha, hholds, hbefore.pending, hbefore.owned⟩

theorem feedInv_of_reachable (h : (ownerFeed dates owner).ReachableUnder (Undisturbed dates owner) s) :
    FeedInv dates owner s :=
  h.invariant feedInv_init fun _ _ _ hinv hcondition hstep => hinv.step hcondition hstep

/-- Every state of the next message whose skill the receiver does not hold locally is shown after
the message. -/
def NextShown (owner : String) (s s' : OwnerFeed) : Prop :=
  ∀ message ∈ s.channel.head?, ∀ state ∈ message.states, state.skill_id ∉ s.localSkills →
    ShowsState (s'.entry owner state.skill_id) state

/-- In a run that was not disturbed so far the next message shows its states exactly if it is not
disturbed, either. -/
theorem announceSync_shown_iff (dates : Dates) (owner : String) {s s' : OwnerFeed}
    {clock : Nat → String}
    (h : (ownerFeed dates owner).ReachableUnder (Undisturbed dates owner) s)
    (hstep : (ownerFeed dates owner).step s (.deliver clock) = some s') :
    NextShown owner s s' ↔ Undisturbed dates owner s (.deliver clock) := by
  have hinv := feedInv_of_reachable h
  have hstep : feedStep dates owner s (.deliver clock) = some s' := hstep
  dsimp only [feedStep] at hstep
  split at hstep
  · cases hstep
  · next message channel hchannel =>
      obtain rfl := Option.some.inj hstep
      -- the condition is about entries that a foreign write touched, the others are in order by the invariant
      have hnext : ∀ {P : OwnerMessage → Prop}, (∀ message ∈ s.channel.head?, P message) ↔
          P message := by
        intro P
        rw [hchannel]
        exact ⟨fun h => h message rfl, fun h m hm => Option.some.inj hm ▸ h⟩
      rw [NextShown, hnext, Undisturbed, OwnerFeed.nextSync, hchannel]
      cases message with
      -- an announcement of the owner is shown in any case
      | announce states =>
          exact iff_of_true (hinv.deliver_announce hchannel).2 nofun
      | sync states =>
          have hentries := (hinv.deliver_sync hchannel clock).2
          constructor
          · intro hshown state hstate hlocal _
            -- a state that does not replace the entry is shown only if it already was
            by_cases hreplaces : replaces dates state (s.entry owner state.skill_id) = some true
            · exact .inl hreplaces
            · have hshown := hshown state hstate hlocal
              rw [(hentries state hstate).2 hreplaces] at hshown
              exact .inr hshown
          · intro hcondition state hstate hlocal
            have hnext : replaces dates state (s.entry owner state.skill_id) = some true ∨
                ShowsState (s.entry owner state.skill_id) state := by
              cases hforeign : s.foreign state.skill_id with
              | true => exact hcondition state hstate hlocal hforeign
              | false => exact hinv.replaces_or_shown hchannel hstate hforeign
            by_cases hreplaces : replaces dates state (s.entry owner state.skill_id) = some true
            · exact (hentries state hstate).1 hreplaces
            · rw [(hentries state hstate).2 hreplaces]
              exact hnext.resolve_left hreplaces

/-- The dates of three texts. -/
def threeDates : Dates where
  ofText := fun text =>
    if text = "2026-01-01T00:00:01.000Z" then some 1767225601000
    else if text = "2026-01-01T00:00:02.000Z" then some 1767225602000
    else if text = "2026-01-01T00:00:03.000Z" then some 1767225603000
    else none
  ofNumber := fun _ => none
  ofProxy := fun _ => some none

/-- A state of a skill. -/
def skillState (version updatedAt : String) : Capability :=
  { unstampedCapability "spiffe://thinklocal/host/o/agent/a" "s" updatedAt with
    version := version, extra := [] }

/-- The owner announces a state and synchronises the next one; the receiver's clock shows `now` at
the announcement, and the second state is of `updatedAt`. -/
def updateRun (now updatedAt : String) : List FeedAction :=
  [.change (skillState "1.0.0" "2026-01-01T00:00:01.000Z"), .announce ["s"], .deliver fun _ => now,
    .change (skillState "2.0.0" updatedAt), .sync ["s"] fun _ => []]

/-- The machine of the owner that the runs are about. -/
abbrev exampleFeed : Machine OwnerFeed FeedAction :=
  ownerFeed threeDates "spiffe://thinklocal/host/o/agent/a"

/-- The receiver's clock is behind the owner's second state. -/
theorem announceSync_shown :
    ∃ s s', exampleFeed.runFrom exampleFeed.init
        (updateRun "2026-01-01T00:00:02.000Z" "2026-01-01T00:00:03.000Z") = some s ∧
      exampleFeed.step s (.deliver fun _ => "2026-01-01T00:00:03.000Z") = some s' ∧
      NextShown "spiffe://thinklocal/host/o/agent/a" s s' := by
  have hmeets : exampleFeed.Meets
      (Undisturbed threeDates "spiffe://thinklocal/host/o/agent/a") exampleFeed.init
      (updateRun "2026-01-01T00:00:02.000Z" "2026-01-01T00:00:03.000Z") := by
    refine ⟨trivial, fun s₁ h₁ => ?_⟩
    obtain rfl := Option.some.inj h₁
    refine ⟨trivial, fun s₂ h₂ => ?_⟩
    obtain rfl := Option.some.inj h₂
    refine ⟨nofun, fun s₃ h₃ => ?_⟩
    obtain rfl := Option.some.inj h₃
    refine ⟨trivial, fun s₄ h₄ => ?_⟩
    obtain rfl := Option.some.inj h₄
    exact ⟨trivial, fun _ _ => trivial⟩
  refine ⟨_, _, rfl, rfl, (announceSync_shown_iff threeDates _
    (Machine.ReachableUnder.init.runFrom hmeets rfl) rfl).mpr ?_⟩
  -- the second state is past the receiver's clock
  intro state hstate _ _
  obtain rfl := List.mem_singleton.mp hstate
  exact .inl (by decide +kernel)

/-- The receiver's clock is ahead: the second state is ignored. -/
theorem newer_state_ignored :
    ∃ s s', exampleFeed.Reachable s ∧
      exampleFeed.step s (.deliver fun _ => "2026-01-01T00:00:03.000Z") = some s' ∧
      ¬ NextShown "spiffe://thinklocal/host/o/agent/a" s s' := by
  have hreachable : ∀ s, exampleFeed.runFrom exampleFeed.init
      (updateRun "2026-01-01T00:00:03.000Z" "2026-01-01T00:00:02.000Z") = some s →
        exampleFeed.Reachable s := fun _ => Machine.reachable_of_runFrom
  refine ⟨_, _, hreachable _ rfl, rfl, fun hshown => ?_⟩
  have hstate := hshown _ rfl { skillState "2.0.0" "2026-01-01T00:00:02.000Z" with extra := [] }
    (List.mem_singleton.mpr rfl) nofun
  revert hstate
  decide +kernel

end ThinkLocal.Registry
