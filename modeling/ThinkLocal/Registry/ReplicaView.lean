import ThinkLocal.Registry.OwnerView
import ThinkLocal.Registry.Poison

/-!
# The replicated document refines the registry

The methods of `CapabilityRegistry` were given on the JSON view of a document,
the steps of the network on its operations.  Here the two are compared: after a
step of a node, the node's view shows the entries that the registry method
computes from the view before (`step_shows`), key by key and field by field.

The normalisation that follows every received message finds nothing to delete in
such a network (`normalize_view`), which is why a sync step only merges.
-/

namespace ThinkLocal.Registry

open Foundation Foundation.Document Foundation.Replicas CapabilityRegistry

/-! ## Values that show the same -/

/-- Equal values, or objects with the same value in each field. -/
def Agree (a b : Option Json) : Prop :=
  a = b ∨ ∃ fields fields', a = some (.object fields) ∧ b = some (.object fields') ∧
    ∀ name, lookup fields name = lookup fields' name

theorem Agree.trans {a b c : Option Json} (hab : Agree a b) (hbc : Agree b c) : Agree a c := by
  rcases hab with rfl | ⟨f, g, rfl, rfl, hfg⟩
  · exact hbc
  · rcases hbc with rfl | ⟨g', k, hg, rfl, hgk⟩
    · exact .inr ⟨f, g, rfl, rfl, hfg⟩
    · obtain rfl : g = g' := Json.object.inj (Option.some.inj hg)
      exact .inr ⟨f, k, rfl, rfl, fun name => (hfg name).trans (hgk name)⟩

/-- A value that agrees with an object is an object. -/
theorem Agree.object {a : Option Json} {fields' : Fields} (h : Agree a (some (.object fields'))) :
    ∃ fields, a = some (.object fields) ∧ ∀ name, lookup fields name = lookup fields' name := by
  rcases h with rfl | ⟨fields, g, rfl, hg, hsame⟩
  · exact ⟨fields', rfl, fun _ => rfl⟩
  · obtain rfl : fields' = g := Json.object.inj (Option.some.inj hg)
    exact ⟨fields, rfl, hsame⟩

/-- The view shows the entries. -/
def Shows (doc : Replica) (fields : Fields) : Prop :=
  ∀ key, Agree (lookup (view doc) key) (lookup fields key)

theorem shows_view (doc : Replica) : Shows doc (view doc) := fun _ => .inl rfl

/-! ## One write -/

section Write

variable {s : Network} {node : AgentId} {reason : Reason} {place : Place} {value : Option Json}

theorem valueAt_write_of_ne (h : s.replicas.Consistent) {place' : Place} (hne : place' ≠ place) :
    valueAt ((s.replicas.write node reason place value).docs node) place' =
      valueAt (s.doc node) place' := by
  rw [valueAt, winner, h.visible_write_of_ne hne]
  rfl

theorem winner_write_of_ne (h : s.replicas.Consistent) {place' : Place} (hne : place' ≠ place) :
    winner ((s.replicas.write node reason place value).docs node) place' =
      winner (s.doc node) place' := by
  rw [winner, h.visible_write_of_ne hne]
  rfl

theorem winner_write_self (h : s.replicas.Consistent) (v : Json) :
    winner ((s.replicas.write node reason place (some v)).docs node) place =
      some (s.replicas.nextOp node place (some v)) := by
  apply winner_of_visible
  rw [h.visible_write_self]
  rfl

/-- An object none of whose fields is written agrees with itself. -/
theorem agree_entryOf (h : s.replicas.Consistent) {op : Op AgentId Place Json}
    (hne : ∀ name, place ≠ .field op.id name) :
    Agree (some (entryOf ((s.replicas.write node reason place value).docs node) op))
      (some (entryOf (s.doc node) op)) := by
  unfold entryOf
  split
  · refine .inr ⟨_, _, rfl, rfl, fun name => ?_⟩
    rw [lookup_fieldsOf, lookup_fieldsOf, valueAt_write_of_ne h (hne name).symm]
  · exact .inl rfl
  · exact .inl rfl

/-- A write elsewhere leaves the entry under the key. -/
theorem agree_view_of_ne (h : s.replicas.Consistent) {key : String} (hkey : place ≠ .entry key)
    (hfield : ∀ op, winner (s.doc node) (.entry key) = some op →
      ∀ name, place ≠ .field op.id name) :
    Agree (lookup (view ((s.replicas.write node reason place value).docs node)) key)
      (lookup (view (s.doc node)) key) := by
  rw [lookup_view, lookup_view, winner_write_of_ne h hkey.symm]
  cases hwinner : winner (s.doc node) (.entry key) with
  | none => exact .inl rfl
  | some op => exact agree_entryOf h (hfield op hwinner)

/-- No field was ever written of an object that is not yet made. -/
theorem valueAt_fresh (h : WellFormed s) {place' : Place} {id : OpId AgentId}
    (hid : ∀ w ∈ s.replicas.history, w.2.id ≠ id) (hne : ∀ name, Place.field id name ≠ place')
    (name : String) :
    valueAt ((s.replicas.write node reason place' value).docs node) (.field id name) = none := by
  rw [valueAt_write_of_ne h.consistent (hne name)]
  cases hvalue : valueAt (s.doc node) (.field id name) with
  | none => rfl
  | some value =>
      exfalso
      obtain ⟨op, hwinner, -⟩ := Option.bind_eq_some_iff.mp hvalue
      obtain ⟨hop, hplace, -⟩ := mem_visible_iff.mp (mem_visible_of_winner hwinner)
      obtain ⟨reason', -, hdescribes⟩ := h.made hop
      have hstatus := (hdescribes.status hplace).2
      -- every write of a field goes back to the object that was made before
      cases reason' with
      | register cap now => cases hstatus
      | unregister skillId => cases hstatus
      | removePeerCapabilities agentId =>
          obtain ⟨owner, skillId, -, -, hentry, -⟩ := hdescribes
          rw [hentry] at hplace
          cases hplace
      | markAgentOffline agentId =>
          obtain ⟨_, -, -, _, _, created, _, _, hcreated, -, hfield, -⟩ := hdescribes
          exact hid _ hcreated (Place.field.inj (hfield.symm.trans hplace)).1
      | markStaleCapabilities =>
          obtain ⟨_, created, _, hcreated, hfield, -⟩ := hdescribes
          exact hid _ hcreated (Place.field.inj (hfield.symm.trans hplace)).1

end Write

/-! ## One edit -/

section Edit

variable {s : Network} {node : AgentId} {reason : Reason} {fields fields' : Fields}

section Shown

variable (h : WellFormed s) (hshows : Shows (s.doc node) fields)

include h hshows

theorem put_shows (key : String) (v : Json) :
    Shows ((s.replicas.write node reason (.entry key) (some v)).docs node)
      (insertField fields key v) := by
  intro key'
  rw [lookup_insertField]
  by_cases hkey : key' = key
  · subst hkey
    rw [if_pos rfl, lookup_view, winner_write_self h.consistent, Option.map_some, entryOf]
    cases v with
    | object created =>
        refine .inr ⟨_, created, rfl, rfl, fun name => ?_⟩
        have hfresh : ∀ w ∈ s.replicas.history, w.2.id ≠
            (s.replicas.nextOp node (.entry key') (some (.object created))).id :=
          fun _ hw => h.consistent.fresh hw
        rw [lookup_fieldsOf, valueAt_fresh h hfresh (fun _ heq => by cases heq), Option.none_or]
    | _ => exact .inl rfl
  · rw [if_neg hkey]
    refine (agree_view_of_ne h.consistent ?_ ?_).trans (hshows key')
    · exact fun heq => hkey (Place.entry.inj heq).symm
    · exact fun _ _ _ heq => by cases heq

theorem delete_shows (key : String) :
    Shows ((s.replicas.write node reason (.entry key) none).docs node)
      (eraseField fields key) := by
  intro key'
  rw [lookup_eraseField]
  by_cases hkey : key' = key
  · subst hkey
    have hnone : visible ((s.replicas.write node reason (.entry key') none).docs node)
        (.entry key') = [] := by
      rw [h.consistent.visible_write_self]
      rfl
    rw [if_pos rfl, lookup_view, winner_eq_none_iff.mpr hnone]
    exact .inl rfl
  · rw [if_neg hkey]
    refine (agree_view_of_ne h.consistent ?_ ?_).trans (hshows key')
    · exact fun heq => hkey (Place.entry.inj heq).symm
    · exact fun _ _ _ heq => by cases heq

theorem assign_shows {key name : String}
    {v : Json} {entry : Fields} (hentry : lookup fields key = some (.object entry)) :
    Shows ((commitEdit node reason s.replicas (.assign key name v)).docs node)
      (insertField fields key (.object (insertField entry name v))) := by
  obtain ⟨shown, hshown, hsame⟩ := (hentry ▸ hshows key).object
  rw [lookup_view] at hshown
  obtain ⟨op, hwinner, hvalue⟩ := Option.map_eq_some_iff.mp hshown
  obtain ⟨hop, hplace, -⟩ := mem_visible_iff.mp (mem_visible_of_winner hwinner)
  obtain ⟨created, hcreated, hfields⟩ : ∃ created, op.value = some (.object created) ∧
      shown = fieldsOf (s.doc node) op.id created := by
    unfold entryOf at hvalue
    split at hvalue
    · exact ⟨_, ‹_›, (Json.object.inj hvalue).symm⟩
    · rename_i hnot _
      exact absurd hvalue (hnot _)
    · cases hvalue
  have hcommit : commitEdit node reason s.replicas (.assign key name v) =
      s.replicas.write node reason (.field op.id name) (some v) := by
    rw [commitEdit, show winner (s.replicas.docs node) (.entry key) = some op from hwinner]
  rw [hcommit]
  intro key'
  rw [lookup_insertField]
  by_cases hkey : key' = key
  · subst hkey
    rw [if_pos rfl, lookup_view, winner_write_of_ne h.consistent (by simp), hwinner,
      Option.map_some, entryOf, hcreated]
    refine .inr ⟨_, _, rfl, rfl, fun name' => ?_⟩
    rw [lookup_fieldsOf, lookup_insertField]
    by_cases hname : name' = name
    · subst hname
      rw [if_pos rfl, valueAt, winner_write_self h.consistent]
      rfl
    · have hne : Place.field op.id name' ≠ .field op.id name :=
        fun heq => hname (Place.field.inj heq).2
      rw [if_neg hname, valueAt_write_of_ne h.consistent hne, ← hsame name', hfields,
        lookup_fieldsOf]
  · rw [if_neg hkey]
    refine (agree_view_of_ne h.consistent (by simp) fun op' hwinner' name' heq => ?_).trans
      (hshows key')
    -- The object under the other key is another one.
    obtain ⟨hop', hplace', -⟩ := mem_visible_iff.mp (mem_visible_of_winner hwinner')
    have hsameOp : op = op' :=
      h.consistent.eq_of_id hop hop' (Place.field.inj heq).1
    rw [← hsameOp, hplace] at hplace'
    exact hkey (Place.entry.inj hplace').symm

theorem commitEdit_shows {edit : Edit}
    (hedit : applyEdit (.object fields) edit = some (.object fields')) :
    Shows ((commitEdit node reason s.replicas edit).docs node) fields' := by
  cases edit with
  | put key v =>
      obtain rfl := Json.object.inj (Option.some.inj hedit)
      exact put_shows h hshows key v
  | delete key =>
      obtain rfl := Json.object.inj (Option.some.inj hedit)
      exact delete_shows h hshows key
  | assign key name v =>
      obtain ⟨entry', hassign, heq⟩ := Option.map_eq_some_iff.mp hedit
      obtain rfl := Json.object.inj heq
      -- a field is set in an object, anything else would have thrown
      cases hlookup : lookup fields key with
      | none =>
          rw [hlookup] at hassign
          cases hassign
      | some value =>
          rw [hlookup] at hassign
          cases value with
          | object entry =>
              obtain rfl := Option.some.inj hassign
              exact assign_shows h hshows hlookup
          | _ => cases hassign

end Shown

/-- An edit of a map leaves a map. -/
theorem object_of_applyEdit {edit : Edit} {value : Json}
    (h : applyEdit (.object fields) edit = some value) : ∃ fields', value = .object fields' := by
  cases edit with
  | put key v => exact ⟨_, (Option.some.inj h).symm⟩
  | delete key => exact ⟨_, (Option.some.inj h).symm⟩
  | assign key name v =>
      obtain ⟨entry, -, rfl⟩ := Option.map_eq_some_iff.mp h
      exact ⟨_, rfl⟩

theorem commitEdits_shows (h : WellFormed s) (hshows : Shows (s.doc node) fields)
    {edits : List Edit} (hclean : ∀ edit ∈ edits, CleanUpEdit node reason edit)
    {capabilities : Option Json} (hedits : applyEdits (some (.object fields)) edits =
      some capabilities) :
    ∃ fields', capabilities = some (.object fields') ∧
      Shows ((commitEdits node reason s.replicas edits).docs node) fields' := by
  induction edits generalizing s fields with
  | nil =>
      obtain rfl := Option.some.inj hedits
      exact ⟨fields, rfl, hshows⟩
  | cons edit rest ih =>
      obtain ⟨value, hedit, hrest⟩ := Option.bind_eq_some_iff.mp hedits
      obtain ⟨fields₁, rfl⟩ := object_of_applyEdit hedit
      have hafter : WellFormed { s with replicas := commitEdit node reason s.replicas edit } :=
        h.commitEdit (hclean edit List.mem_cons_self)
      have hshown : Shows ((commitEdit node reason s.replicas edit).docs node) fields₁ :=
        commitEdit_shows h hshows hedit
      exact ih (s := { s with replicas := commitEdit node reason s.replicas edit }) hafter hshown
        (fun edit' hmem => hclean edit' (List.mem_cons_of_mem _ hmem)) hrest

end Edit

/-! ## Steps -/

/-- The node that takes a local step and the method of its registry. -/
def NetworkAction.method (dates : Dates) :
    NetworkAction → Option (AgentId × (CapabilityRegistry → CapabilityRegistry))
  | .register node cap now => some (node, fun r => (r.register cap now).1)
  | .unregister node skillId => some (node, fun r => (r.unregister node.uri skillId).1)
  | .removePeerCapabilities node agentId => some (node, fun r => (r.removePeerCapabilities agentId).1)
  | .markAgentOffline node agentId now => some (node, fun r => (r.markAgentOffline agentId now).1)
  | .markStaleCapabilities node maxAgeMs now =>
      some (node, fun r =>
        (CapabilityRegistry.markStaleCapabilities dates r maxAgeMs now).1)
  | .sync _ _ _ => none

theorem removePeerCapabilities_capabilities (r : CapabilityRegistry) (agentId : String) :
    (r.removePeerCapabilities agentId).1.capabilities =
      (r.change (removePeerEdits agentId)).1.capabilities := by
  unfold removePeerCapabilities
  split
  all_goals
    rename_i hchange
    rw [hchange]

theorem unregister_capabilities (r : CapabilityRegistry) (agentId skillId : String) :
    (r.unregister agentId skillId).1.capabilities =
      (r.change fun _ => some [.delete (makeKey agentId skillId)]).1.capabilities := by
  unfold unregister
  dsimp only
  split
  all_goals
    rename_i hchange
    rw [hchange]

section Step

variable {dates : Dates} {s s' : Network} {node : AgentId}

/-- A clean-up shows what the change of the registry computes. -/
theorem change_shows (h : WellFormed s) {reason : Reason} {edits : Option Json → Option (List Edit)}
    (hclean : ∀ es, edits (some (.object (view (s.doc node)))) = some es →
      ∀ edit ∈ es, CleanUpEdit node reason edit) :
    ∃ fields, ((s.registry node).change edits).1.capabilities = some (.object fields) ∧
      Shows ((s.change node reason edits).doc node) fields := by
  unfold Network.change
  cases hchange : ((s.registry node).change edits).2 with
  | none =>
      rw [change_eq_none hchange]
      exact ⟨view (s.doc node), rfl, shows_view _⟩
  | some es =>
      obtain ⟨hes, happly⟩ := change_eq_some hchange
      exact commitEdits_shows h (shows_view _) (hclean es hes) happly

/-- After a local step the node's view shows what the registry method computes. -/
theorem step_shows (h : WellFormed s) {action : NetworkAction}
    {method : CapabilityRegistry → CapabilityRegistry}
    (hstep : (network dates).step s action = some s')
    (hmethod : action.method dates = some (node, method)) :
    ∃ fields, (method (s.registry node)).capabilities = some (.object fields) ∧
      Shows (s'.doc node) fields := by
  cases action with
  | register node' cap now =>
      obtain ⟨rfl, rfl⟩ := Prod.mk.inj (Option.some.inj hmethod)
      obtain ⟨-, hs'⟩ := Option.ite_none_right_eq_some.mp hstep
      obtain rfl := Option.some.inj hs'
      exact ⟨_, rfl, put_shows h (shows_view _) _ _⟩
  | unregister node' skillId =>
      obtain ⟨rfl, rfl⟩ := Prod.mk.inj (Option.some.inj hmethod)
      obtain rfl := Option.some.inj hstep
      dsimp only
      rw [unregister_capabilities]
      exact ⟨_, rfl, delete_shows h (shows_view _) _⟩
  | removePeerCapabilities node' agentId =>
      obtain ⟨rfl, rfl⟩ := Prod.mk.inj (Option.some.inj hmethod)
      -- the foreign entries that are cleaned up are deletions in the replica as well
      obtain ⟨hother, hs'⟩ := Option.ite_none_left_eq_some.mp hstep
      obtain rfl := Option.some.inj hs'
      dsimp only
      rw [removePeerCapabilities_capabilities]
      apply change_shows h
      intro es hes
      obtain rfl := Option.some.inj hes
      exact removeEdits_cleanUp hother _ fun key value hentry => h.owner hentry
  | markAgentOffline node' agentId now =>
      obtain ⟨rfl, rfl⟩ := Prod.mk.inj (Option.some.inj hmethod)
      obtain ⟨hother, hs'⟩ := Option.ite_none_left_eq_some.mp hstep
      obtain rfl := Option.some.inj hs'
      apply change_shows h
      intro es hes
      exact offlineEdits_cleanUp hother hes fun key value hentry => h.owner hentry
  | markStaleCapabilities node' maxAgeMs now =>
      obtain ⟨rfl, rfl⟩ := Prod.mk.inj (Option.some.inj hmethod)
      obtain rfl := Option.some.inj hstep
      apply change_shows h
      intro es hes
      exact staleEdits_cleanUp hes
  | sync sender receiver ids => cases hmethod

end Step

/-! ## Normalising after a message -/

theorem mem_foldl_insertField {f : String → Option Json} {names : List String} {created : Fields}
    {p : String × Json}
    (h : p ∈ names.foldl (fun fields name =>
      match f name with
      | some value => insertField fields name value
      | none => fields) created) : p ∈ created ∨ p.1 ∈ names := by
  induction names generalizing created with
  | nil => exact .inl h
  | cons first rest ih =>
      rcases ih h with hmem | hmem
      · dsimp only at hmem
        split at hmem
        · rcases mem_insertField hmem with rfl | hmem
          · exact .inr List.mem_cons_self
          · exact .inl hmem
        · exact .inl hmem
      · exact .inr (List.mem_cons_of_mem _ hmem)

theorem WellFormed.sideFree {s : Network} (h : WellFormed s) {node : AgentId}
    {object : OpId AgentId} {cap : Capability} {now : String} {p : String × Json}
    (hp : p ∈ fieldsOf (s.doc node) object (registeredFields cap now)) :
    p.1 ∉ nonCrdtFields := by
  rcases mem_foldl_insertField hp with hcreated | hassigned
  · exact (goodEntry_registered ⟨fun _ => none, fun _ => none, fun _ => none⟩ cap now).sideFree
      _ (registered_eq cap now) p hcreated
  · obtain ⟨op, hop, hname⟩ := List.mem_filterMap.mp (List.mem_dedup.mp hassigned)
    obtain ⟨reason, -, hdescribes⟩ := h.made hop
    split at hname
    · cases hname
    · rename_i object' name hplace
      obtain ⟨-, hname⟩ := Option.ite_none_right_eq_some.mp hname
      have hstatus := (hdescribes.status hplace).1
      rw [Option.some.inj hname] at hstatus
      revert hstatus
      generalize p.1 = name
      revert name
      decide

/-- No view has a field for the normalisation to delete. -/
theorem normalize_view {s : Network} (h : WellFormed s) (node : AgentId) :
    normalizeCrdtSchema (some (.object (view (s.doc node)))) =
      some (some (.object (view (s.doc node)))) := by
  have hentry : ∀ p ∈ view (s.doc node), IsContainer p.2 ∧ stripEntry p.2 = p.2 := by
    rintro ⟨key, value⟩ hp
    obtain ⟨op, cap, now, -, -, -, -, rfl⟩ := h.entry hp
    refine ⟨.inl ⟨_, rfl⟩, congrArg Json.object (List.filter_eq_self.mpr fun q hq => ?_)⟩
    exact decide_eq_true (h.sideFree hq)
  have hmap : (view (s.doc node)).map (fun p => (p.1, stripEntry p.2)) = view (s.doc node) := by
    calc (view (s.doc node)).map (fun p => (p.1, stripEntry p.2))
        = (view (s.doc node)).map id :=
          List.map_congr_left fun p hp => by rw [(hentry p hp).2]; rfl
      _ = view (s.doc node) := List.map_id _
  rw [normalizeCrdtSchema, normalizeFields_eq_some_iff.mpr
    ⟨fun p hp => (hentry p hp).1, hmap.symm⟩]
  rfl

end ThinkLocal.Registry
