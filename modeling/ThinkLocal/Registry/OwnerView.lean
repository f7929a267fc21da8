import ThinkLocal.Registry.Replication

/-!
# What an owner sees of its own capabilities

A node writes only under its own identity, but it cleans up after others:
`removePeerCapabilities` deletes the entries of a peer that it considers gone and
`markAgentOffline` and `markStaleCapabilities` overwrite their health.  These are
writes to the replicated document that come causally after the registration, so
wherever they arrive they win, also at the owner.

`owner_view` says what remains.  An entry with the identity of a node that the
node itself shows is always one that it registered and has not unregistered.  A
registered capability is shown with its own health until such a clean-up, made by
another node or by a stale check, arrives at the owner; and the next registration
by the owner shows it again.

The invariant `WellFormed` says of every write where it went and what it wrote,
and of every registration of an owner that it is current or replaced.
-/

namespace ThinkLocal.Registry

open Foundation Foundation.Document Foundation.Replicas CapabilityRegistry

/-! ## Keys -/

theorem toList_makeKey (domain path skillId : String) :
    (makeKey (domain ++ path) skillId).toList =
      domain.toList ++ (path.toList ++ ':' :: ':' :: skillId.toList) := by
  have hsep : "::".toList = [':', ':'] := by decide
  rw [makeKey, String.toList_append, String.toList_append, String.toList_append, hsep]
  simp only [List.append_assoc, List.cons_append, List.nil_append]

/-- The path of a node ends at the first colon. -/
theorem takeWhile_path (node : AgentId) (rest : List Char) :
    (node.path.toList ++ ':' :: rest).takeWhile (fun c => c ≠ ':') = node.path.toList := by
  rw [List.takeWhile_append_of_pos]
  · simp
  · intro c hc
    have hne : c ≠ ':' := fun heq => node.noColon (heq ▸ hc)
    simpa using hne

/-- A key determines the node and the skill. -/
theorem makeKey_uri_inj {node node' : AgentId} {skillId skillId' : String}
    (h : makeKey node.uri skillId = makeKey node'.uri skillId') :
    node = node' ∧ skillId = skillId' := by
  have htexts : node.path.toList ++ ':' :: ':' :: skillId.toList =
      node'.path.toList ++ ':' :: ':' :: skillId'.toList := by
    have hlist := congrArg String.toList h
    rw [AgentId.uri, AgentId.uri, toList_makeKey, toList_makeKey] at hlist
    exact List.append_cancel_left hlist
  have hpaths : node.path.toList = node'.path.toList := by
    rw [← takeWhile_path node (':' :: skillId.toList), htexts, takeWhile_path]
  obtain rfl : node = node' := AgentId.path_injective (String.toList_injective hpaths)
  have hskills := List.append_cancel_left htexts
  simp only [List.cons.injEq, true_and] at hskills
  exact ⟨rfl, String.toList_injective hskills⟩

theorem uri_injective : Function.Injective AgentId.uri := by
  intro node node' h
  have hkeys : makeKey node.uri "" = makeKey node'.uri "" := by rw [h]
  exact (makeKey_uri_inj hkeys).1

/-! ## What a registration writes -/

/-- The fields of the object that a registration writes. -/
def registeredFields (cap : Capability) (now : String) : Fields :=
  insertField (stripNonCrdtFields cap.toFields) "updated_at" (.string now)

theorem registered_eq (cap : Capability) (now : String) :
    registered cap now = .object (registeredFields cap now) := rfl

theorem lookup_registered_agent_id (cap : Capability) (now : String) :
    lookup (registeredFields cap now) "agent_id" = some (.string cap.agent_id) := by
  rw [registeredFields, lookup_insertField, if_neg (by decide),
    lookup_stripNonCrdtFields _ (by decide)]
  simp [Capability.toFields, lookup]

theorem lookup_registered_health (cap : Capability) (now : String) :
    lookup (registeredFields cap now) "health" = some (.string cap.health.text) := by
  rw [registeredFields, lookup_insertField, if_neg (by decide),
    lookup_stripNonCrdtFields _ (by decide)]
  simp [Capability.toFields, lookup]

/-! ## The writes -/

/-- The fields that a clean-up overwrites. -/
def statusFields : List String := ["health", "updated_at"]

/-- The skill of its own that a node writes about. -/
def Reason.ownSkill : Reason → Option String
  | .register cap _ => some cap.skill_id
  | .unregister skillId => some skillId
  | _ => none

/-- Where a write for the reason goes and what it writes. -/
def Describes (history : List (Reason × Op AgentId Place Json)) :
    Reason → Op AgentId Place Json → Prop
  | .register cap now, op =>
      cap.agent_id = op.author.uri ∧ op.place = .entry (makeKey cap.agent_id cap.skill_id) ∧
        op.value = some (registered cap now)
  | .unregister skillId, op =>
      op.place = .entry (makeKey op.author.uri skillId) ∧ op.value = none
  | .removePeerCapabilities agentId, op =>
      ∃ owner skillId, owner ≠ op.author ∧ agentId = owner.uri ∧
        op.place = .entry (makeKey owner.uri skillId) ∧ op.value = none
  | .markAgentOffline agentId, op =>
      ∃ owner, owner ≠ op.author ∧ agentId = owner.uri ∧
        ∃ cap now created name text, (.register cap now, created) ∈ history ∧
          created.author = owner ∧ op.place = .field created.id name ∧ name ∈ statusFields ∧
          op.value = some (.string text)
  | .markStaleCapabilities, op =>
      ∃ reason created text, (reason, created) ∈ history ∧
        op.place = .field created.id "health" ∧ op.value = some (.string text)

theorem Describes.mono {history history' : List (Reason × Op AgentId Place Json)}
    (hsub : history ⊆ history') {reason : Reason} {op : Op AgentId Place Json}
    (h : Describes history reason op) : Describes history' reason op := by
  cases reason with
  | markAgentOffline agentId =>
      obtain ⟨owner, hne, huri, cap, now, created, name, text, hcreated, hrest⟩ := h
      exact ⟨owner, hne, huri, cap, now, created, name, text, hsub hcreated, hrest⟩
  | markStaleCapabilities =>
      obtain ⟨reason, created, text, hcreated, hrest⟩ := h
      exact ⟨reason, created, text, hsub hcreated, hrest⟩
  | _ => exact h

/-- A write of a value under a key is a registration. -/
theorem Describes.registration {history : List (Reason × Op AgentId Place Json)} {reason : Reason}
    {op : Op AgentId Place Json} {key : String} (h : Describes history reason op)
    (hplace : op.place = .entry key) (hsome : op.value.isSome) :
    ∃ cap now, reason = .register cap now ∧ cap.agent_id = op.author.uri ∧
      key = makeKey cap.agent_id cap.skill_id ∧ op.value = some (registered cap now) := by
  cases reason with
  | register cap now =>
      obtain ⟨hagent, hplace', hvalue⟩ := h
      rw [hplace'] at hplace
      exact ⟨cap, now, rfl, hagent, (Place.entry.inj hplace).symm, hvalue⟩
  | unregister skillId =>
      obtain ⟨-, hvalue⟩ := h
      rw [hvalue] at hsome
      cases hsome
  | removePeerCapabilities agentId =>
      obtain ⟨owner, skillId, -, -, -, hvalue⟩ := h
      rw [hvalue] at hsome
      cases hsome
  | markAgentOffline agentId =>
      obtain ⟨owner, -, -, cap, now, created, name, text, -, -, hfield, -⟩ := h
      rw [hfield] at hplace
      cases hplace
  | markStaleCapabilities =>
      obtain ⟨-, created, text, -, hfield, -⟩ := h
      rw [hfield] at hplace
      cases hplace

/-- A write to a field is the status written by a clean-up. -/
theorem Describes.status {history : List (Reason × Op AgentId Place Json)} {reason : Reason}
    {op : Op AgentId Place Json} {object : OpId AgentId} {name : String}
    (h : Describes history reason op) (hplace : op.place = .field object name) :
    name ∈ statusFields ∧ reason.ownSkill = none := by
  cases reason with
  | register cap now =>
      obtain ⟨-, hplace', -⟩ := h
      rw [hplace'] at hplace
      cases hplace
  | unregister skillId =>
      obtain ⟨hplace', -⟩ := h
      rw [hplace'] at hplace
      cases hplace
  | removePeerCapabilities agentId =>
      obtain ⟨owner, skillId, -, -, hplace', -⟩ := h
      rw [hplace'] at hplace
      cases hplace
  | markAgentOffline agentId =>
      obtain ⟨owner, -, -, cap, now, created, name', text, -, -, hplace', hname, -⟩ := h
      rw [hplace'] at hplace
      obtain ⟨-, rfl⟩ := Place.field.inj hplace
      exact ⟨hname, rfl⟩
  | markStaleCapabilities =>
      obtain ⟨-, created, text, -, hplace', -⟩ := h
      rw [hplace'] at hplace
      obtain ⟨-, rfl⟩ := Place.field.inj hplace
      exact ⟨List.mem_cons_self, rfl⟩

/-! ## The invariant -/

structure WellFormed (s : Network) : Prop where
  consistent : s.replicas.Consistent
  described : ∀ w ∈ s.replicas.history, Describes s.replicas.history w.1 w.2
  /-- What a node has on record was registered by it. -/
  current : ∀ node skillId reg, s.registered node skillId = some reg →
    ∃ op, (.register reg.cap reg.now, op) ∈ s.replicas.history ∧ op.id = reg.id ∧
      op.author = node ∧ reg.cap.skill_id = skillId
  /-- The node itself did not replace it since. -/
  kept : ∀ node skillId reg, s.registered node skillId = some reg →
    ∀ w ∈ s.replicas.history, w.2.author = node → w.1.ownSkill = some skillId →
      reg.id ∉ w.2.pred
  /-- Every registration is on record or replaced. -/
  replaced : ∀ cap now op, (.register cap now, op) ∈ s.replicas.history →
    (∃ reg, s.registered op.author cap.skill_id = some reg ∧ reg.id = op.id) ∨
      Replaced (s.doc op.author) op.id

theorem wellFormed_init : WellFormed .init := by
  refine ⟨consistent_empty, ?_, ?_, ?_, ?_⟩
  all_goals simp [Network.init, Replicas.empty]

section Write

variable {s : Network} {node : AgentId} {reason : Reason} {place : Place} {value : Option Json}

theorem mem_history_write {w : Reason × Op AgentId Place Json} :
    w ∈ (s.replicas.write node reason place value).history ↔
      w ∈ s.replicas.history ∨ w = (reason, s.replicas.nextOp node place value) := by
  rw [Replicas.write, List.mem_append, List.mem_singleton]

theorem replaced_mono {R R' : Replicas AgentId Place Json Reason} {id : OpId AgentId}
    (hdocs : R.docs node ⊆ R'.docs node) (h : Replaced (R.docs node) id) :
    Replaced (R'.docs node) id := by
  obtain ⟨op, hop, hpred⟩ := h
  exact ⟨op, hdocs hop, hpred⟩

/-- How a write changes the record: only at the node's own skill, where a registration enters the new
number. -/
structure RecordChange (s : Network) (node : AgentId) (reason : Reason) (place : Place)
    (value : Option Json) (registered' : AgentId → String → Option Registration) : Prop where
  same : ∀ node' skillId, ¬ (node' = node ∧ reason.ownSkill = some skillId) →
    registered' node' skillId = s.registered node' skillId
  own : ∀ skillId, reason.ownSkill = some skillId →
    (∃ reg, registered' node skillId = some reg ∧ reason = .register reg.cap reg.now ∧
      reg.id = (s.replicas.nextOp node place value).id) ∨
    registered' node skillId = none ∧ reason = .unregister skillId
  place : ∀ skillId, reason.ownSkill = some skillId → place = .entry (makeKey node.uri skillId)

variable {registered' : AgentId → String → Option Registration}

theorem RecordChange.of_registered (h : RecordChange s node reason place value registered')
    {skillId : String} (hskill : reason.ownSkill = some skillId) {reg : Registration}
    (hreg : registered' node skillId = some reg) : reason = .register reg.cap reg.now ∧
      reg.id = (s.replicas.nextOp node place value).id := by
  rcases h.own skillId hskill with ⟨reg', hreg', hreason⟩ | ⟨hnone, -⟩
  · obtain rfl : reg = reg' := Option.some.inj (hreg.symm.trans hreg')
    exact hreason
  · rw [hnone] at hreg
    cases hreg

section Change

variable (h : WellFormed s) (hchange : RecordChange s node reason place value registered')

include h hchange

/-- What is on record behind the write was registered. -/
theorem WellFormed.current_write {node' : AgentId}
    {skillId : String} {reg : Registration} (hreg : registered' node' skillId = some reg) :
    ∃ op, (.register reg.cap reg.now, op) ∈ (s.replicas.write node reason place value).history ∧
      op.id = reg.id ∧ op.author = node' ∧ reg.cap.skill_id = skillId := by
  by_cases hhere : node' = node ∧ reason.ownSkill = some skillId
  · obtain ⟨rfl, hskill⟩ := hhere
    obtain ⟨hreason, hid⟩ := hchange.of_registered hskill hreg
    rw [hreason] at hskill
    exact ⟨_, hreason ▸ mem_history_write.mpr (.inr rfl), hid.symm, rfl, Option.some.inj hskill⟩
  · rw [hchange.same node' skillId hhere] at hreg
    obtain ⟨op, hop, hrest⟩ := h.current node' skillId reg hreg
    exact ⟨op, mem_history_write.mpr (.inl hop), hrest⟩

/-- What is on record behind the write was not replaced by its own node. -/
theorem WellFormed.kept_write {node' : AgentId}
    {skillId : String} {reg : Registration} (hreg : registered' node' skillId = some reg)
    {w : Reason × Op AgentId Place Json}
    (hw : w ∈ (s.replicas.write node reason place value).history) (hauthor : w.2.author = node')
    (hskill : w.1.ownSkill = some skillId) : reg.id ∉ w.2.pred := by
  intro hpred
  by_cases hhere : node' = node ∧ reason.ownSkill = some skillId
  · -- the new number is not among the replaced ones
    obtain ⟨rfl, hskill'⟩ := hhere
    rw [(hchange.of_registered hskill' hreg).2] at hpred
    have hmem : w.2 ∈ (s.replicas.write node' reason place value).docs node' := by
      have := h.consistent.write.own w hw
      rwa [hauthor] at this
    rw [docs_write_self] at hmem
    exact h.consistent.not_replaced_nextOp ⟨w.2, hmem, hpred⟩
  · rw [hchange.same node' skillId hhere] at hreg
    rcases mem_history_write.mp hw with hw | rfl
    · exact h.kept node' skillId reg hreg w hw hauthor hskill hpred
    · exact hhere ⟨hauthor.symm, hskill⟩

/-- The node's new write under a key replaces its registration there. -/
theorem WellFormed.replaced_by_write {cap : Capability} {now : String} {op : Op AgentId Place Json}
    (hop : (.register cap now, op) ∈ s.replicas.history) (hauthor : op.author = node)
    (hskill : reason.ownSkill = some cap.skill_id) :
    Replaced ((s.replicas.write node reason place value).docs op.author) op.id := by
  obtain ⟨hagent, hentry, hvalue⟩ := h.described _ hop
  have hplace : op.place = place := by rw [hentry, hchange.place _ hskill, hagent, hauthor]
  have hdoc : op ∈ s.replicas.docs node := by
    have := h.consistent.own _ hop
    rwa [hauthor] at this
  have hcommit := replaced_of_commit node value hdoc (by rw [hvalue]; rfl)
  rw [hplace] at hcommit
  rw [hauthor, docs_write_self]
  exact hcommit

end Change

/-- A described write keeps the invariant if the record changes as the reason says. -/
theorem WellFormed.write (h : WellFormed s)
    (hdescribes : Describes s.replicas.history reason (s.replicas.nextOp node place value))
    (hchange : RecordChange s node reason place value registered') :
    WellFormed { replicas := s.replicas.write node reason place value,
                 registered := registered' } where
  consistent := h.consistent.write
  described w hw := by
    have hold : s.replicas.history ⊆ (s.replicas.write node reason place value).history :=
      fun w hw => mem_history_write.mpr (.inl hw)
    rcases mem_history_write.mp hw with hw | rfl
    · exact (h.described w hw).mono hold
    · exact hdescribes.mono hold
  current _ _ _ hreg := h.current_write hchange hreg
  kept _ _ _ hreg _ hw hauthor hskill := h.kept_write hchange hreg hw hauthor hskill
  replaced cap now op hop := by
    rcases mem_history_write.mp hop with hop | heq
    · rcases h.replaced cap now op hop with ⟨reg, hreg, hid⟩ | hreplaced
      · -- the write replaces a registration of its own skill only
        by_cases hhere : op.author = node ∧ reason.ownSkill = some cap.skill_id
        · exact .inr (h.replaced_by_write hchange hop hhere.1 hhere.2)
        · exact .inl ⟨reg, (hchange.same _ _ hhere).trans hreg, hid⟩
      · exact .inr (replaced_mono (fun _ h => mem_docs_write h) hreplaced)
    · obtain ⟨hreason, rfl⟩ := Prod.mk.inj heq
      have hskill : reason.ownSkill = some cap.skill_id := by
        rw [← hreason]
        rfl
      rcases hchange.own _ hskill with ⟨reg, hreg, -, hid⟩ | ⟨-, hunregister⟩
      · exact .inl ⟨reg, hreg, hid⟩
      · rw [hunregister] at hreason
        cases hreason

end Write

/-! ## Clean-ups -/

/-- The edits of a clean-up by the node. -/
inductive CleanUpEdit (node : AgentId) : Reason → Edit → Prop
  | remove {owner : AgentId} {skillId : String} (hother : owner ≠ node) :
      CleanUpEdit node (.removePeerCapabilities owner.uri) (.delete (makeKey owner.uri skillId))
  | offline {owner : AgentId} {skillId name text : String} (hother : owner ≠ node)
      (hname : name ∈ statusFields) :
      CleanUpEdit node (.markAgentOffline owner.uri)
        (.assign (makeKey owner.uri skillId) name (.string text))
  | stale {key text : String} :
      CleanUpEdit node .markStaleCapabilities (.assign key "health" (.string text))

section CleanUp

variable {s : Network} {node : AgentId} {reason : Reason}

theorem WellFormed.made (h : WellFormed s) {op : Op AgentId Place Json} (hop : op ∈ s.doc node) :
    ∃ reason, (reason, op) ∈ s.replicas.history ∧ Describes s.replicas.history reason op := by
  obtain ⟨reason, hmade⟩ := h.consistent.made node op hop
  exact ⟨reason, hmade, h.described _ hmade⟩

/-- A write that is shown under a key is a registration. -/
theorem WellFormed.registration (h : WellFormed s) {op : Op AgentId Place Json} {key : String}
    (hop : op ∈ visible (s.doc node) (.entry key)) :
    ∃ cap now, (.register cap now, op) ∈ s.replicas.history ∧ cap.agent_id = op.author.uri ∧
      key = makeKey cap.agent_id cap.skill_id ∧ op.value = some (registered cap now) := by
  obtain ⟨hmem, hplace, hsome, -⟩ := mem_visible_iff.mp hop
  obtain ⟨reason, hmade, hdescribes⟩ := h.made hmem
  obtain ⟨cap, now, rfl, hrest⟩ := hdescribes.registration hplace hsome
  exact ⟨cap, now, hmade, hrest⟩

/-- A write that a clean-up makes leaves every record as it is. -/
theorem WellFormed.write_cleanUp (h : WellFormed s) {place : Place} {value : Option Json}
    (hdescribes : Describes s.replicas.history reason (s.replicas.nextOp node place value))
    (hreason : reason.ownSkill = none) :
    WellFormed { s with replicas := s.replicas.write node reason place value } := by
  refine h.write hdescribes ⟨fun _ _ _ => rfl, fun skillId hskill => ?_, fun skillId hskill => ?_⟩
  · rw [hreason] at hskill
    cases hskill
  · rw [hreason] at hskill
    cases hskill

theorem WellFormed.commitEdit (h : WellFormed s) {edit : Edit}
    (hedit : CleanUpEdit node reason edit) :
    WellFormed { s with replicas := commitEdit node reason s.replicas edit } := by
  cases hedit with
  | @remove owner skillId hother =>
      exact h.write_cleanUp ⟨owner, skillId, hother, rfl, rfl, rfl⟩ rfl
  | @offline owner skillId name text hother hname =>
      dsimp only [Registry.commitEdit]
      split
      · -- the field is set in the object that wins at the time
        rename_i op hwinner
        obtain ⟨cap, now, hmade, hagent, hkey, -⟩ :=
          h.registration (mem_visible_of_winner hwinner)
        rw [hagent] at hkey
        obtain ⟨hauthor, -⟩ := makeKey_uri_inj hkey
        exact h.write_cleanUp
          ⟨owner, hother, rfl, cap, now, op, name, text, hmade, hauthor.symm, rfl, hname, rfl⟩ rfl
      · exact h
  | @stale key text =>
      dsimp only [Registry.commitEdit]
      split
      · rename_i op hwinner
        obtain ⟨hop, -⟩ := mem_visible_iff.mp (mem_visible_of_winner hwinner)
        obtain ⟨reason, hmade, -⟩ := h.made hop
        exact h.write_cleanUp ⟨reason, op, text, hmade, rfl, rfl⟩ rfl
      · exact h

theorem WellFormed.commitEdits (h : WellFormed s) {edits : List Edit}
    (hedits : ∀ edit ∈ edits, CleanUpEdit node reason edit) :
    WellFormed { s with replicas := commitEdits node reason s.replicas edits } := by
  induction edits generalizing s with
  | nil => exact h
  | cons edit rest ih =>
      have hfirst := h.commitEdit (hedits edit List.mem_cons_self)
      exact ih hfirst fun edit' hmem => hedits edit' (List.mem_cons_of_mem _ hmem)

theorem WellFormed.change (h : WellFormed s) {edits : Option Json → Option (List Edit)}
    (hedits : ∀ es, edits (some (.object (view (s.doc node)))) = some es →
      ∀ edit ∈ es, CleanUpEdit node reason edit) :
    WellFormed (s.change node reason edits) := by
  unfold Network.change
  split
  · rename_i es hchange
    exact h.commitEdits (hedits es (change_eq_some hchange).1)
  · exact h

end CleanUp

/-! ## What the view shows -/

section View

variable {s : Network} {node : AgentId}

/-- A field that no clean-up overwrites shows what the registration wrote. -/
theorem WellFormed.lookup_plain (h : WellFormed s) (object : OpId AgentId) (created : Fields)
    {name : String} (hname : name ∉ statusFields) :
    lookup (fieldsOf (s.doc node) object created) name = lookup created name := by
  rw [lookup_fieldsOf]
  cases hvalue : valueAt (s.doc node) (.field object name) with
  | none => rfl
  | some value =>
      obtain ⟨op, hwinner, -⟩ := Option.bind_eq_some_iff.mp hvalue
      obtain ⟨hop, hplace, -⟩ := mem_visible_iff.mp (mem_visible_of_winner hwinner)
      obtain ⟨reason, -, hdescribes⟩ := h.made hop
      exact absurd (hdescribes.status hplace).1 hname

/-- Every entry of the view is a registered capability of the node that its key
and its `agent_id` name, but for the fields that clean-ups overwrite. -/
theorem WellFormed.entry (h : WellFormed s) {key : String} {value : Json}
    (hentry : (key, value) ∈ view (s.doc node)) :
    ∃ op cap now, winner (s.doc node) (.entry key) = some op ∧
      (.register cap now, op) ∈ s.replicas.history ∧ cap.agent_id = op.author.uri ∧
      key = makeKey cap.agent_id cap.skill_id ∧
      value = .object (fieldsOf (s.doc node) op.id (registeredFields cap now)) := by
  obtain ⟨op, hwinner, rfl⟩ := winner_of_mem_view hentry
  obtain ⟨cap, now, hmade, hagent, hkey, hvalue⟩ := h.registration (mem_visible_of_winner hwinner)
  refine ⟨op, cap, now, hwinner, hmade, hagent, hkey, ?_⟩
  rw [entryOf, hvalue]
  rfl

/-- An entry with the `agent_id` stands under a key of that agent. -/
theorem WellFormed.owner (h : WellFormed s) {key : String} {value : Json} {agentId : String}
    (hentry : (key, value) ∈ view (s.doc node))
    (howner : Json.isString (Json.propertyOrUndefined (some value) "agent_id") agentId = true) :
    ∃ owner skillId, agentId = AgentId.uri owner ∧ key = makeKey owner.uri skillId := by
  obtain ⟨op, cap, now, -, -, hagent, hkey, rfl⟩ := h.entry hentry
  rw [Json.propertyOrUndefined, h.lookup_plain op.id _ (by decide),
    lookup_registered_agent_id] at howner
  have heq : cap.agent_id = agentId := of_decide_eq_true howner
  exact ⟨op.author, cap.skill_id, heq.symm.trans hagent, hagent ▸ hkey⟩

theorem removeEdits_cleanUp {agentId : String} (hother : agentId ≠ node.uri) (keys : List String)
    {fields : Fields}
    (howned : ∀ key value, (key, value) ∈ fields →
      Json.isString (Json.propertyOrUndefined (some value) "agent_id") agentId = true →
      ∃ owner skillId, agentId = AgentId.uri owner ∧ key = makeKey owner.uri skillId) :
    ∀ edit ∈ removeEdits agentId keys (.object fields),
      CleanUpEdit node (.removePeerCapabilities agentId) edit := by
  induction keys generalizing fields with
  | nil => exact fun _ h => nomatch h
  | cons key rest ih =>
      intro edit hedit
      -- an entry is removed only if it names the agent as its owner
      rw [removeEdits] at hedit
      split at hedit
      · rename_i howner
        rcases List.mem_cons.mp hedit with rfl | hedit
        · cases hlookup : lookup fields key with
          | none =>
              rw [Json.element, hlookup] at howner
              cases howner
          | some value =>
              rw [Json.element, hlookup] at howner
              obtain ⟨owner, skillId, rfl, rfl⟩ := howned key value (mem_of_lookup hlookup) howner
              exact .remove fun heq => hother (congrArg AgentId.uri heq)
        · exact ih (fun key' value hmem => howned key' value (mem_eraseField hmem)) edit hedit
      · exact ih howned edit hedit

theorem offlineEdits_cleanUp {agentId now : String} (hother : agentId ≠ node.uri)
    {fields : Fields} {edits : List Edit} (hedits : offlineEdits agentId now fields = some edits)
    (howned : ∀ key value, (key, value) ∈ fields →
      Json.isString (Json.propertyOrUndefined (some value) "agent_id") agentId = true →
      ∃ owner skillId, agentId = AgentId.uri owner ∧ key = makeKey owner.uri skillId) :
    ∀ edit ∈ edits, CleanUpEdit node (.markAgentOffline agentId) edit := by
  induction fields generalizing edits with
  | nil =>
      obtain rfl := Option.some.inj hedits
      exact fun _ h => nomatch h
  | cons p rest ih =>
      obtain ⟨key, cap⟩ := p
      obtain ⟨owner, hproperty, hrest⟩ := Option.bind_eq_some_iff.mp hedits
      obtain ⟨edits', hedits', rfl⟩ := Option.map_eq_some_iff.mp hrest
      have htail := ih hedits' fun key' value hmem => howned key' value (List.mem_cons_of_mem _ hmem)
      intro edit hedit
      split at hedit
      · rename_i hagent
        have hread : Json.propertyOrUndefined (some cap) "agent_id" = owner := by
          cases cap with
          | null => cases hproperty
          | _ => exact Option.some.inj hproperty
        obtain ⟨node', skillId, rfl, rfl⟩ :=
          howned key cap List.mem_cons_self (hread ▸ hagent)
        -- the entry belongs to the agent that went away, which is another node
        have hne : node' ≠ node := fun heq => hother (congrArg AgentId.uri heq)
        rcases List.mem_cons.mp hedit with rfl | hedit
        · exact .offline hne (by decide)
        · rcases List.mem_cons.mp hedit with rfl | hedit
          · exact .offline hne (by decide)
          · exact htail edit hedit
      · exact htail edit hedit

theorem staleEdits_cleanUp {dates : Dates} {maxAgeMs now : Int} {value : Json}
    {keys : List String} {edits : List Edit}
    (hedits : staleEdits dates maxAgeMs now value keys = some edits) :
    ∀ edit ∈ edits, CleanUpEdit node .markStaleCapabilities edit := by
  induction keys generalizing edits with
  | nil =>
      obtain rfl := Option.some.inj hedits
      exact fun _ h => nomatch h
  | cons key rest ih =>
      rw [staleEdits] at hedits
      split at hedits
      · exact ih hedits
      · obtain ⟨updated, -, hrest⟩ := Option.bind_eq_some_iff.mp hedits
        obtain ⟨edits', hedits', rfl⟩ := Option.map_eq_some_iff.mp hrest
        intro edit hedit
        split at hedit
        · rcases List.mem_cons.mp hedit with rfl | hedit
          · exact .stale
          · exact ih hedits' edit hedit
        · exact ih hedits' edit hedit

end View

/-! ## Steps and runs -/

section Step

variable {dates : Dates} {s s' : Network}

/-- The change and the record of a node's own write. -/
theorem WellFormed.write_own (h : WellFormed s) {node : AgentId} {reason : Reason}
    {skillId : String} {value : Option Json} {registration : Option Registration}
    (hdescribes : Describes s.replicas.history reason
      (s.replicas.nextOp node (.entry (makeKey node.uri skillId)) value))
    (hskill : reason.ownSkill = some skillId)
    (hrecord : (∃ reg, registration = some reg ∧ reason = .register reg.cap reg.now ∧
        reg.id = (s.replicas.nextOp node (.entry (makeKey node.uri skillId)) value).id) ∨
      registration = none ∧ reason = .unregister skillId) :
    WellFormed (Network.record
      { s with replicas := s.replicas.write node reason (.entry (makeKey node.uri skillId)) value }
      node skillId registration) := by
  refine h.write hdescribes ⟨?_, ?_, ?_⟩
  · intro node' skillId' hne
    -- no other record changes
    by_cases hnode : node' = node
    · subst hnode
      have hskill' : skillId' ≠ skillId := fun heq => hne ⟨rfl, heq ▸ hskill⟩
      rw [Function.update_self, Function.update_of_ne hskill']
    · rw [Function.update_of_ne hnode]
  · intro skillId' hskill'
    obtain rfl : skillId = skillId' := Option.some.inj (hskill.symm.trans hskill')
    rw [Function.update_self, Function.update_self]
    exact hrecord
  · intro skillId' hskill'
    obtain rfl : skillId = skillId' := Option.some.inj (hskill.symm.trans hskill')
    rfl

theorem WellFormed.step (h : WellFormed s) {action : NetworkAction}
    (hstep : (network dates).step s action = some s') : WellFormed s' := by
  cases action with
  | register node cap now =>
      obtain ⟨hagent, hs'⟩ := Option.ite_none_right_eq_some.mp hstep
      obtain rfl := Option.some.inj hs'
      rw [hagent]
      exact h.write_own ⟨hagent, by rw [hagent]; rfl, rfl⟩ rfl (.inl ⟨_, rfl, rfl, rfl⟩)
  | unregister node skillId =>
      obtain rfl := Option.some.inj hstep
      exact h.write_own ⟨rfl, rfl⟩ rfl (.inr ⟨rfl, rfl⟩)
  | removePeerCapabilities node agentId =>
      obtain ⟨hother, hs'⟩ := Option.ite_none_left_eq_some.mp hstep
      obtain rfl := Option.some.inj hs'
      -- what is cleaned up is in the namespaces of others
      apply h.change
      intro es hes
      obtain rfl := Option.some.inj hes
      exact removeEdits_cleanUp hother _ fun key value hentry => h.owner hentry
  | markAgentOffline node agentId now =>
      obtain ⟨hother, hs'⟩ := Option.ite_none_left_eq_some.mp hstep
      obtain rfl := Option.some.inj hs'
      apply h.change
      intro es hes
      exact offlineEdits_cleanUp hother hes fun key value hentry => h.owner hentry
  | markStaleCapabilities node maxAgeMs now =>
      obtain rfl := Option.some.inj hstep
      apply h.change
      intro es hes
      exact staleEdits_cleanUp hes
  | sync sender receiver ids =>
      obtain rfl := Option.some.inj hstep
      -- the operations that are sent were made before
      have hsub : ((s.doc sender).filter fun op =>
          op.id ∈ ids ∧ op.id ∉ (s.doc receiver).map Op.id) ⊆ s.replicas.docs sender :=
        List.filter_sublist.subset
      refine ⟨h.consistent.merge hsub, h.described, h.current, h.kept, fun cap now op hop => ?_⟩
      exact (h.replaced cap now op hop).imp_right (replaced_mono fun _ hmem => mem_docs_merge hmem)

theorem wellFormed_of_reachable (h : (network dates).Reachable s) : WellFormed s :=
  h.invariant wellFormed_init fun _ _ _ hI hstep => hI.step hstep

end Step

/-! ## The owner's entries -/

/-- The registration is shown at its owner with the health it was given. -/
def Shown (s : Network) (node : AgentId) (reg : Registration) : Prop :=
  ∃ fields, lookup (view (s.doc node)) (makeKey node.uri reg.cap.skill_id) =
      some (.object fields) ∧
    lookup fields "agent_id" = some (.string node.uri) ∧
    lookup fields "health" = some (.string reg.cap.health.text)

/-- A clean-up of the registration has arrived at its owner: another node deleted
the entry that the registration wrote, or overwrote its health because it took the
owner to be offline, or a stale check degraded it. -/
def CleanedUp (s : Network) (node : AgentId) (reg : Registration) : Prop :=
  ∃ w ∈ s.replicas.history, w.2 ∈ s.doc node ∧
    ((w.1 = .removePeerCapabilities node.uri ∧ w.2.author ≠ node ∧ reg.id ∈ w.2.pred) ∨
      (w.1 = .markAgentOffline node.uri ∧ w.2.author ≠ node ∨ w.1 = .markStaleCapabilities) ∧
        w.2.place = .field reg.id "health")

section Owner

variable {s : Network} {node : AgentId}

/-- What a node itself shows under its own identity is on its record. -/
theorem WellFormed.registered_of_entry (h : WellFormed s) {key : String} {fields : Fields}
    (hentry : (key, .object fields) ∈ view (s.doc node))
    (hagent : lookup fields "agent_id" = some (.string node.uri)) :
    ∃ skillId reg, s.registered node skillId = some reg ∧ key = makeKey node.uri skillId ∧
      ∀ name, name ∉ statusFields →
        lookup fields name = lookup (registeredFields reg.cap reg.now) name := by
  obtain ⟨op, cap, now, hwinner, hmade, hauthor, hkey, hfields⟩ := h.entry hentry
  obtain rfl := Json.object.inj hfields
  rw [h.lookup_plain op.id _ (by decide), lookup_registered_agent_id] at hagent
  have huri : cap.agent_id = node.uri := Json.string.inj (Option.some.inj hagent)
  have hnode : op.author = node := uri_injective (hauthor.symm.trans huri)
  obtain ⟨-, -, -, hvisible⟩ := mem_visible_iff.mp (mem_visible_of_winner hwinner)
  rcases h.replaced cap now op hmade with ⟨reg, hreg, hid⟩ | hreplaced
  · rw [hnode] at hreg
    refine ⟨cap.skill_id, reg, hreg, by rw [hkey, huri], fun name hname => ?_⟩
    obtain ⟨op', hmade', hid', -⟩ := h.current _ _ _ hreg
    have heq := h.consistent.unique _ hmade' _ hmade (hid'.trans hid)
    obtain ⟨hcap, hnow⟩ := Reason.register.inj (congrArg Prod.fst heq)
    rw [h.lookup_plain op.id _ hname, hcap, hnow]
  · rw [hnode] at hreplaced
    exact absurd hreplaced hvisible

/-- Whatever replaced a recorded registration at its owner was a removal by another node. -/
theorem WellFormed.cleanedUp_of_replaced (h : WellFormed s) {skillId : String}
    {reg : Registration} (hreg : s.registered node skillId = some reg)
    (hreplaced : Replaced (s.doc node) reg.id) : CleanedUp s node reg := by
  obtain ⟨op, hmade, hid, hauthor, hskill⟩ := h.current node skillId reg hreg
  obtain ⟨hagent, hentry, -⟩ := h.described _ hmade
  rw [hagent, hauthor, hskill] at hentry
  obtain ⟨op', hop', hpred⟩ := hreplaced
  obtain ⟨reason, hmade', hdescribes⟩ := h.made hop'
  -- The replacing operation is at the same place.
  have hplace : op'.place = .entry (makeKey node.uri skillId) := by
    obtain ⟨w, hw, hwid, hwplace⟩ := h.consistent.seen _ hmade' _ hpred
    have heq := h.consistent.unique _ hw _ hmade (hwid.trans hid.symm)
    rw [← hwplace, heq]
    exact hentry
  have hnotOwn : op'.author = node → reason.ownSkill ≠ some skillId :=
    fun hown hsame => h.kept node skillId reg hreg _ hmade' hown hsame hpred
  cases reason with
  | register cap now =>
      obtain ⟨hagent', hentry', -⟩ := hdescribes
      rw [hagent'] at hentry'
      obtain ⟨hnode, hsame⟩ := makeKey_uri_inj (Place.entry.inj (hentry'.symm.trans hplace))
      exact absurd (congrArg some hsame) (hnotOwn hnode)
  | unregister skillId' =>
      obtain ⟨hnode, hsame⟩ := makeKey_uri_inj (Place.entry.inj (hdescribes.1.symm.trans hplace))
      exact absurd (congrArg some hsame) (hnotOwn hnode)
  | removePeerCapabilities agentId =>
      obtain ⟨owner, skillId', hother, rfl, hentry', -⟩ := hdescribes
      obtain ⟨rfl, -⟩ := makeKey_uri_inj (Place.entry.inj (hentry'.symm.trans hplace))
      exact ⟨_, hmade', hop', .inl ⟨rfl, Ne.symm hother, hpred⟩⟩
  | markAgentOffline agentId =>
      obtain ⟨-, -, -, -, -, created, name, text, -, -, hfield, -⟩ := hdescribes
      rw [hfield] at hplace
      cases hplace
  | markStaleCapabilities =>
      obtain ⟨-, created, text, -, hfield, -⟩ := hdescribes
      rw [hfield] at hplace
      cases hplace

/-- Whatever overwrote the health of a recorded registration at its owner was a clean-up. -/
theorem WellFormed.cleanedUp_of_health (h : WellFormed s) {skillId : String} {reg : Registration}
    (hreg : s.registered node skillId = some reg) {op : Op AgentId Place Json}
    (hop : op ∈ s.doc node) (hplace : op.place = .field reg.id "health") :
    CleanedUp s node reg := by
  obtain ⟨reason, hmade, hdescribes⟩ := h.made hop
  refine ⟨_, hmade, hop, .inr ⟨?_, hplace⟩⟩
  have hstatus := (hdescribes.status hplace).2
  -- the health is set by two of the calls, and both are clean-ups
  cases reason with
  | register cap now => cases hstatus
  | unregister skillId' => cases hstatus
  | removePeerCapabilities agentId =>
      obtain ⟨owner, skillId', -, -, hentry, -⟩ := hdescribes
      rw [hentry] at hplace
      cases hplace
  | markAgentOffline agentId =>
      obtain ⟨owner, hother, rfl, cap, now, created, name, text, hcreated, hauthor, hfield, -⟩ :=
        hdescribes
      obtain ⟨op', hmade', hid, hauthor', -⟩ := h.current node skillId reg hreg
      obtain ⟨hobject, -⟩ := Place.field.inj (hfield.symm.trans hplace)
      have heq := h.consistent.unique _ hcreated _ hmade' (hobject.trans hid.symm)
      have hop' : created = op' := congrArg Prod.snd heq
      obtain rfl : owner = node := by rw [← hauthor, hop', hauthor']
      exact .inl ⟨rfl, Ne.symm hother⟩
  | markStaleCapabilities => exact .inr rfl

/-- The winner under the key of a recorded registration that nothing replaced is the
registration. -/
theorem WellFormed.winner_of_registered (h : WellFormed s) {skillId : String}
    {reg : Registration} (hreg : s.registered node skillId = some reg)
    (hreplaced : ¬ Replaced (s.doc node) reg.id) :
    ∃ op, winner (s.doc node) (.entry (makeKey node.uri skillId)) = some op ∧ op.id = reg.id ∧
      op.value = some (registered reg.cap reg.now) := by
  obtain ⟨op, hmade, hid, hauthor, hskill⟩ := h.current node skillId reg hreg
  obtain ⟨hagent, hentry, hvalue⟩ := h.described _ hmade
  rw [hagent, hauthor, hskill] at hentry
  have hdoc : op ∈ s.doc node := by
    have := h.consistent.own _ hmade
    rwa [hauthor] at this
  have hvisible : op ∈ visible (s.doc node) (.entry (makeKey node.uri skillId)) :=
    mem_visible_iff.mpr ⟨hdoc, hentry, by rw [hvalue]; rfl, hid ▸ hreplaced⟩
  obtain ⟨op', hwinner⟩ := exists_winner hvisible
  -- Any other write that is shown there would be a registration by the same node.
  obtain ⟨cap, now, hmade', hagent', hkey, -⟩ := h.registration (mem_visible_of_winner hwinner)
  rw [hagent'] at hkey
  obtain ⟨hauthor', hskill'⟩ := makeKey_uri_inj hkey
  obtain ⟨hdoc', -, -, hnot⟩ := mem_visible_iff.mp (mem_visible_of_winner hwinner)
  rcases h.replaced cap now op' hmade' with ⟨reg', hreg', hid'⟩ | hreplaced'
  · rw [← hauthor', ← hskill', hreg] at hreg'
    obtain rfl := Option.some.inj hreg'
    have heq : op' = op := h.consistent.eq_of_id hdoc' hdoc (hid'.symm.trans hid.symm)
    rw [heq] at hwinner
    exact ⟨op, hwinner, hid, hvalue⟩
  · rw [← hauthor'] at hreplaced'
    exact absurd hreplaced' hnot

/-- A recorded registration is shown at its owner unless a clean-up has arrived. -/
theorem WellFormed.shown_or_cleanedUp (h : WellFormed s) {skillId : String} {reg : Registration}
    (hreg : s.registered node skillId = some reg) : Shown s node reg ∨ CleanedUp s node reg := by
  by_cases hreplaced : Replaced (s.doc node) reg.id
  · exact .inr (h.cleanedUp_of_replaced hreg hreplaced)
  · obtain ⟨op, hwinner, hid, hvalue⟩ := h.winner_of_registered hreg hreplaced
    obtain ⟨-, -, -, -, hskill⟩ := h.current node skillId reg hreg
    cases hhealth : valueAt (s.doc node) (.field reg.id "health") with
    | some value =>
        obtain ⟨op', hwinner', -⟩ := Option.bind_eq_some_iff.mp hhealth
        obtain ⟨hop', hplace', -⟩ := mem_visible_iff.mp (mem_visible_of_winner hwinner')
        exact .inr (h.cleanedUp_of_health hreg hop' hplace')
    | none =>
        left
        refine ⟨fieldsOf (s.doc node) op.id (registeredFields reg.cap reg.now), ?_, ?_, ?_⟩
        · rw [lookup_view, hskill, hwinner, Option.map_some, entryOf, hvalue]
          rfl
        · obtain ⟨op', hmade, -, hauthor, -⟩ := h.current node skillId reg hreg
          obtain ⟨hagent, -⟩ := h.described _ hmade
          rw [h.lookup_plain op.id _ (by decide), lookup_registered_agent_id, hagent, hauthor]
        · rw [lookup_fieldsOf, hid, hhealth, Option.none_or, lookup_registered_health]

end Owner

/-! ## The next registration -/

/-- A registration is shown right after it was made, whatever was cleaned up before. -/
theorem shown_after_register {dates : Dates} {s s' : Network} (h : WellFormed s) {node : AgentId}
    {cap : Capability} {now : String}
    (hstep : (network dates).step s (.register node cap now) = some s') :
    ∃ reg, s'.registered node cap.skill_id = some reg ∧ reg.cap = cap ∧ Shown s' node reg := by
  have hafter : WellFormed s' := h.step hstep
  obtain ⟨hagent, hs'⟩ := Option.ite_none_right_eq_some.mp hstep
  obtain rfl := Option.some.inj hs'
  have hreg := Network.registered_record (s.change node (.register cap now) fun _ =>
    some [.put (makeKey cap.agent_id cap.skill_id) (registered cap now)]) node cap.skill_id
      (some ⟨cap, now, (s.replicas.nextOp node (.entry (makeKey cap.agent_id cap.skill_id))
        (some (registered cap now))).id⟩)
  refine ⟨_, hreg, rfl, ?_⟩
  rcases hafter.shown_or_cleanedUp hreg with hshown | ⟨w, hw, hdoc, hclean⟩
  · exact hshown
  · -- Nothing that was made before mentions the new number.
    exfalso
    have hfresh : ∀ w' ∈ s.replicas.history, w'.2.id ≠ (s.replicas.nextOp node
        (.entry (makeKey cap.agent_id cap.skill_id)) (some (registered cap now))).id :=
      fun _ hw' => h.consistent.fresh hw'
    rcases hclean with ⟨-, -, hpred⟩ | ⟨hreason, hplace⟩
    · have hmem : w.2 ∈ (s.replicas.write node (.register cap now)
          (.entry (makeKey cap.agent_id cap.skill_id)) (some (registered cap now))).docs node := hdoc
      rw [docs_write_self] at hmem
      exact h.consistent.not_replaced_nextOp ⟨w.2, hmem, hpred⟩
    · rcases mem_history_write.mp hw with hw | rfl
      · have hdescribes := h.described w hw
        rcases hreason with ⟨hreason, -⟩ | hreason
        · rw [hreason] at hdescribes
          obtain ⟨_, -, -, _, _, created, _, _, hcreated, -, hfield, -⟩ := hdescribes
          exact hfresh _ hcreated (Place.field.inj (hfield.symm.trans hplace)).1
        · rw [hreason] at hdescribes
          obtain ⟨_, created, _, hcreated, hfield, -⟩ := hdescribes
          exact hfresh _ hcreated (Place.field.inj (hfield.symm.trans hplace)).1
      · cases hplace

variable (dates : Dates)

/-- In every run, what a node shows under its own identity is what it registered
and did not unregister; a registered capability is shown with its own health or
was cleaned up; and a registration shows it again. -/
theorem owner_view {s : Network} (h : (network dates).Reachable s) (node : AgentId) :
    (∀ key fields, (key, .object fields) ∈ view (s.doc node) →
      lookup fields "agent_id" = some (.string node.uri) →
      ∃ skillId reg, s.registered node skillId = some reg ∧ key = makeKey node.uri skillId ∧
        ∀ name, name ∉ statusFields →
          lookup fields name = lookup (registeredFields reg.cap reg.now) name) ∧
    (∀ skillId reg, s.registered node skillId = some reg →
      Shown s node reg ∨ CleanedUp s node reg) ∧
    ∀ cap now s', (network dates).step s (.register node cap now) = some s' →
      ∃ reg, s'.registered node cap.skill_id = some reg ∧ reg.cap = cap ∧ Shown s' node reg := by
  have hwell := wellFormed_of_reachable h
  exact ⟨fun key fields hentry hagent => hwell.registered_of_entry hentry hagent,
    fun skillId reg hreg => hwell.shown_or_cleanedUp hreg,
    fun cap now s' hstep => shown_after_register hwell hstep⟩

/-! ## A run -/

def alice : AgentId := ⟨"host/a/agent/x", by decide⟩

def bob : AgentId := ⟨"host/b/agent/x", by decide⟩

def aliceSkill : Capability :=
  ⟨"skill", "1.0.0", "", alice.uri, .healthy, 3, "", "general", [], []⟩

def someDates : Dates := ⟨fun _ => none, fun _ => none, fun _ => some none⟩

/-- Alice registers a skill, Bob receives it and removes Alice's capabilities, and
his document comes back to Alice. -/
def removalRun : List NetworkAction :=
  [.register alice aliceSkill "t", .sync alice bob [toLex (1, alice)],
    .removePeerCapabilities bob alice.uri, .sync bob alice [toLex (2, bob)]]

/-- Alice has registered the skill and not unregistered it, and her own document
has no entry at all. -/
theorem owner_view_removed :
    ∃ s, (network someDates).Reachable s ∧ (s.registered alice "skill").isSome ∧
      view (s.doc alice) = [] := by
  have hrun : ((network someDates).runFrom Network.init removalRun).map
      (fun s => ((s.registered alice "skill").isSome, (view (s.doc alice)).isEmpty)) =
        some (true, true) := by decide +kernel
  obtain ⟨s, hs, hfacts⟩ := Option.map_eq_some_iff.mp hrun
  obtain ⟨hregistered, hempty⟩ := Prod.mk.inj hfacts
  exact ⟨s, Machine.reachable_of_runFrom hs, hregistered, List.isEmpty_iff.mp hempty⟩

/-- The same run up to Bob's removal, which has not come back yet. -/
theorem owner_view_shown :
    ∃ s, (network someDates).Reachable s ∧ ∃ reg, s.registered alice "skill" = some reg ∧
      (Shown s alice reg ∨ CleanedUp s alice reg) := by
  have hrun : ((network someDates).runFrom Network.init (removalRun.take 3)).map
      (fun s => (s.registered alice "skill").isSome) = some true := by decide +kernel
  obtain ⟨s, hs, hsome⟩ := Option.map_eq_some_iff.mp hrun
  obtain ⟨reg, hreg⟩ := Option.isSome_iff_exists.mp hsome
  have hreachable := Machine.reachable_of_runFrom hs
  exact ⟨s, hreachable, reg, hreg, (owner_view someDates hreachable alice).2.1 "skill" reg hreg⟩

end ThinkLocal.Registry
