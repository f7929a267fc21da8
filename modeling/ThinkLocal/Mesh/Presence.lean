import ThinkLocal.Foundation.Logs
import ThinkLocal.Mesh.Handling

/-!
# Presence events

The events of a peer id are to alternate, and the peer is to be online exactly if its
last event says so.  `addPeer` and `recordHeartbeat` keep this.  `confirmPeerDiscovery`
sets the status without an event, `removePeer` and `handleMissedBeat` fire the offline
event also for a peer that is offline or gone, and a mark may give an online peer
another id.
-/

namespace ThinkLocal.Mesh

open Foundation MeshManager

variable {opts : MeshOptions} {s s' : MeshState} {m m' : MeshManager} {ref : PeerRef}
  {peer : MeshPeer} {peerId key agentId : String} {f : MeshPeer → MeshPeer}

/-! ## Events and states of a peer id -/

/-- The events of a peer id; `true` for `onPeerOnline`. -/
def eventsOf (m : MeshManager) (agentId : String) : List Bool :=
  (m.events.filter fun event => event.agentId = agentId).map (·.online)

def isOnline (m : MeshManager) (agentId : String) : Bool :=
  (m.getPeer agentId).any fun peer => peer.status = .online

/-- The events of every peer id alternate and end with its state. -/
def Presence (m : MeshManager) : Prop :=
  ∀ agentId, Tracks (eventsOf m agentId) (isOnline m agentId)

/-- No event of the step is lost or fired twice. -/
def KeepsPresence (opts : MeshOptions) (s : MeshState) : MeshAction → Prop
  | .confirmPeerDiscovery agentId _ _ => ∀ peer ∈ s.mesh.getPeer agentId, peer.status = .online
  | .removePeer agentId => ∀ peer ∈ s.mesh.getPeer agentId, peer.status = .online
  | .message message now =>
      ∀ peerId ∈ attestedPeerId opts.peerIdAttestingCaFingerprints message,
        ∀ b ∈ s.mesh.binding peerId (some message.sender) message.remoteAddress,
          (∀ p ∈ s.mesh.duplicates peerId b, ∀ peer ∈ s.mesh.objects.get p.2,
            peer.status = .online) ∧
          (b.Rekeys peerId → b.peer.status = .online →
            ∀ senderKey ∈ s.mesh.senderKey peerId message.sender message.remoteAddress now,
              senderKey = "" ∨ message.verify senderKey = .refused)
  | .checkSettles position ok _ =>
      ok = false → ∀ check ∈ s.checks[position]?, ∀ peer ∈ s.mesh.objects.get check.2,
        opts.missedBeatsThreshold ≤ peer.missedBeats + 1 →
          s.mesh.peers.get peer.agentId = some check.2 ∧ peer.status = .online
  | _ => True

instance (opts : MeshOptions) (s : MeshState) :
    (a : MeshAction) → Decidable (KeepsPresence opts s a)
  | .confirmPeerDiscovery agentId _ _ =>
      inferInstanceAs (Decidable (∀ peer ∈ s.mesh.getPeer agentId, peer.status = .online))
  | .removePeer agentId =>
      inferInstanceAs (Decidable (∀ peer ∈ s.mesh.getPeer agentId, peer.status = .online))
  | .message message now =>
      inferInstanceAs (Decidable (∀ peerId ∈ attestedPeerId _ message,
        ∀ b ∈ s.mesh.binding peerId _ _, (∀ p ∈ s.mesh.duplicates peerId b,
          ∀ peer ∈ s.mesh.objects.get p.2, _) ∧
          (_ → _ → ∀ senderKey ∈ s.mesh.senderKey peerId _ _ now, _ ∨ _)))
  | .checkSettles position ok _ =>
      inferInstanceAs (Decidable (ok = false → ∀ check ∈ s.checks[position]?,
        ∀ peer ∈ s.mesh.objects.get check.2, _ → _ ∧ _))
  | .addPeer .. | .recordHeartbeat .. | .updateAgentCard .. | .recordAuthenticatedSeen ..
  | .tick => .isTrue trivial

/-! ## One peer changes -/

theorem eventsOf_emit (online : Bool) (hpeer : m.objects.get ref = some peer) (id : String) :
    eventsOf (m.emit online ref) id =
      eventsOf m id ++ if peer.agentId = id then [online] else [] := by
  rw [emit_of_get online hpeer, eventsOf, eventsOf, List.filter_append, List.map_append]
  by_cases hid : peer.agentId = id
  · simp [hid]
  · simp [hid]

theorem isOnline_emit (online : Bool) (id : String) :
    isOnline (m.emit online ref) id = isOnline m id := by
  rw [isOnline, getPeer, peers_emit, objects_emit, isOnline, getPeer]

theorem isOnline_of_get (hkey : m.peers.get key = some ref)
    (hpeer : m.objects.get ref = some peer) :
    isOnline m key = decide (peer.status = .online) := by
  rw [isOnline, getPeer, hkey, Option.bind_some, hpeer]
  rfl

/-- A change of a registered peer is seen under its key only. -/
theorem isOnline_modify (hm : m.WellFormed) (hkey : m.peers.get key = some ref)
    (hpeer : m.objects.get ref = some peer) (id : String) :
    isOnline (m.modify ref f) id =
      if id = key then decide ((f peer).status = .online) else isOnline m id := by
  by_cases hid : id = key
  · subst hid
    have hkey' : (m.modify ref f).peers.get id = some ref := hkey
    have hpeer' : (m.modify ref f).objects.get ref = some (f peer) := by simp [hpeer]
    rw [if_pos rfl, isOnline_of_get hkey' hpeer']
  · rw [if_neg hid, isOnline, isOnline, getPeer, getPeer, peers_modify]
    cases hget : m.peers.get id with
    | none => rfl
    | some ref' =>
        have hne : ref' ≠ ref := fun heq => hid (hm.key_eq (heq ▸ hget) hkey)
        rw [Option.bind_some, Option.bind_some, objects_modify, Arena.get_modify, if_neg hne]

theorem Presence.modify_of_status (h : Presence m) (hf : ∀ peer, (f peer).status = peer.status) :
    Presence (m.modify ref f) := by
  intro id
  have hsame : isOnline (m.modify ref f) id = isOnline m id := by
    rw [isOnline, isOnline, getPeer, getPeer, peers_modify]
    cases m.peers.get id with
    | none => rfl
    | some ref' =>
        rw [Option.bind_some, Option.bind_some, objects_modify, Arena.get_modify]
        split
        · cases m.objects.get ref' with
          | none => rfl
          | some peer => simp [hf]
        · rfl
  rw [hsame]
  exact h id

/-- A registered peer is switched, with the event. -/
theorem Presence.switch (h : Presence m) (online : Bool) (hm : m.WellFormed)
    (hkey : m.peers.get key = some ref) (hpeer : m.objects.get ref = some peer)
    (hid : ∀ peer, (f peer).agentId = peer.agentId)
    (hbefore : decide (peer.status = .online) = !online)
    (hafter : decide ((f peer).status = .online) = online) :
    Presence ((m.modify ref f).emit online ref) := by
  intro id
  have hpeer' : (m.modify ref f).objects.get ref = some (f peer) := by simp [hpeer]
  have hagent : (f peer).agentId = key := by rw [hid, hm.agentId_eq hkey hpeer]
  rw [eventsOf_emit online hpeer', isOnline_emit, isOnline_modify hm hkey hpeer, hagent]
  by_cases hself : id = key
  · subst hself
    have hold := h id
    rw [isOnline_of_get hkey hpeer, hbefore] at hold
    have hswitched := hold.switch
    rw [Bool.not_not] at hswitched
    rw [if_pos rfl, if_pos rfl, hafter]
    exact hswitched
  · rw [if_neg (fun heq => hself heq.symm), if_neg hself, List.append_nil]
    exact h id

/-- A registered peer is changed and stays online. -/
theorem Presence.modify_online (h : Presence m) (hm : m.WellFormed)
    (hkey : m.peers.get key = some ref) (hpeer : m.objects.get ref = some peer)
    (hbefore : peer.status = .online) (hafter : (f peer).status = .online) :
    Presence (m.modify ref f) := by
  intro id
  rw [isOnline_modify hm hkey hpeer]
  split
  · rename_i hself
    have hold := h id
    rw [hself, isOnline_of_get hkey hpeer, hbefore] at hold
    rw [hself, hafter]
    exact hold
  · exact h id

/-! ## The status `unknown` -/

/-- No peer has the status `unknown`. -/
def Known (m : MeshManager) : Prop :=
  ∀ ref peer, m.objects.get ref = some peer → peer.status ≠ .unknown

theorem Known.modify (h : Known m) (hf : ∀ peer, peer.status ≠ .unknown →
    (f peer).status ≠ .unknown) : Known (m.modify ref f) := by
  intro ref' peer' hpeer'
  obtain ⟨peer, hpeer, ⟨-, rfl⟩ | ⟨-, rfl⟩⟩ := Arena.get_modify_eq_some hpeer'
  · exact hf peer (h ref' peer hpeer)
  · exact h ref' peer' hpeer

theorem Known.of_touches (h : Known m) (htouches : Touches m m') : Known m' := by
  intro ref peer' hpeer'
  rcases htouches ref peer' hpeer' with ⟨-, hknown⟩ | ⟨peer, hpeer, htouched⟩
  · exact hknown
  · rcases htouched.status with hsame | hknown
    · rw [hsame]
      exact h ref peer hpeer
    · exact hknown

theorem known_handleMessage (hm : m.WellFormed) (h : Known m) (pins : List String)
    (message : InboundMessage) (now : Nat) : Known (handleMessage pins m message now).mesh := by
  rcases handleMessage_cases hm pins message now with
    ⟨hmesh, -⟩ | ⟨peerId, b, -, -, ⟨hundone, -⟩ | ⟨hmarked, -⟩⟩
  · rw [hmesh]
    exact h
  · intro ref' peer' hpeer'
    rw [hundone.objects] at hpeer'
    obtain ⟨peer, hpeer, rfl⟩ := Option.map_eq_some_iff.mp hpeer'
    split
    · exact PeerStatus.noConfusion
    · exact h ref' peer hpeer
  · intro ref' peer' hpeer'
    rw [hmarked.objects] at hpeer'
    obtain ⟨peer, hpeer, rfl⟩ := Option.map_eq_some_iff.mp hpeer'
    split
    · exact h ref' peer hpeer
    · split
      · exact PeerStatus.noConfusion
      · exact h ref' peer hpeer

theorem known_step (hm : s.mesh.WellFormed) (h : Known s.mesh) {a : MeshAction}
    (hstep : (mesh opts).step s a = some s') : Known s'.mesh := by
  rcases step_cases hstep with ⟨agentId, card, rfl⟩ | ⟨message, now, rfl⟩ | ⟨htouches, -⟩
  · obtain rfl := Option.some.inj hstep
    dsimp only [MeshManager.updateAgentCard]
    split
    · exact h.modify fun _ hold => hold
    · exact h
  · obtain rfl := Option.some.inj hstep
    exact known_handleMessage hm h opts.peerIdAttestingCaFingerprints message now
  · exact h.of_touches htouches

/-! ## The operations -/

/-- A new peer comes with its event. -/
theorem Presence.register (h : Presence m) (hm : m.WellFormed) (hkey : m.peers.get key = none)
    (hid : peer.agentId = key) (hstatus : peer.status = .online) :
    Presence (MeshManager.emit { m with
      objects := m.objects.alloc peer
      peers := m.peers.set key m.objects.next } true m.objects.next) := by
  intro id
  rw [eventsOf_emit true (Arena.get_alloc_next m.objects peer), isOnline_emit, hid]
  by_cases hself : id = key
  · subst hself
    have hold := h id
    rw [isOnline, getPeer, hkey] at hold
    rw [if_pos rfl, isOnline_of_get (InsertionMap.get_set_self _ _ _)
      (Arena.get_alloc_next m.objects peer), hstatus]
    exact hold.switch
  · rw [if_neg (fun heq => hself heq.symm), List.append_nil, isOnline, getPeer,
      InsertionMap.get_set_of_ne _ _ hself]
    have hsame : (m.peers.get id).bind (m.objects.alloc peer).get = m.getPeer id := by
      rw [getPeer]
      cases hget : m.peers.get id with
      | none => rfl
      | some ref =>
          obtain ⟨other, hother, -⟩ := hm id ref hget
          rw [Option.bind_some, Option.bind_some, hother, Arena.get_alloc_of_get hother]
    rw [hsame]
    exact h id

theorem Presence.addPeer (h : Presence m) (hm : m.WellFormed) (hknown : Known m)
    (discovered : DiscoveredPeer) (now : Nat) : Presence (m.addPeer discovered now) := by
  unfold MeshManager.addPeer
  cases hkey : m.peers.get discovered.agentId with
  | some ref =>
      obtain ⟨peer, hpeer, -⟩ := hm _ ref hkey
      dsimp only
      rw [hpeer, Option.any_some]
      cases hstatus : peer.status with
      | offline =>
          apply h.switch true hm hkey hpeer
          · exact fun _ => rfl
          · simp [hstatus]
          · rfl
      | online => exact h.modify_online hm hkey hpeer hstatus rfl
      | unknown => exact absurd hstatus (hknown ref peer hpeer)
  | none => exact h.register hm hkey rfl rfl

theorem Presence.delete (h : Presence m) (hoff : isOnline m key = false) :
    Presence { m with peers := m.peers.delete key } := by
  intro id
  have hsame : isOnline { m with peers := m.peers.delete key } id = isOnline m id := by
    by_cases hid : id = key
    · subst hid
      rw [hoff, isOnline, getPeer, InsertionMap.get_delete_self]
      rfl
    · rw [isOnline, getPeer, InsertionMap.get_delete_of_ne _ hid]
      rfl
  rw [hsame]
  exact h id

theorem Presence.removePeer (h : Presence m) (hm : m.WellFormed)
    (honline : ∀ peer ∈ m.getPeer key, peer.status = .online) : Presence (m.removePeer key) := by
  cases hkey : m.peers.get key with
  | none =>
      rw [removePeer_of_absent hkey]
      exact h
  | some ref =>
      obtain ⟨peer, hpeer, hid, hget⟩ := hm.exists_peer hkey
      have hswitched : Presence ((m.modify ref MeshPeer.offline).emit false ref) := by
        apply h.switch false hm hkey hpeer
        · exact fun _ => rfl
        · simp [honline peer hget]
        · rfl
      have hoff : isOnline ((m.modify ref MeshPeer.offline).emit false ref) key = false := by
        rw [isOnline_emit, isOnline_modify hm hkey hpeer, if_pos rfl]
        rfl
      unfold MeshManager.removePeer
      rw [hkey]
      exact hswitched.delete hoff

theorem Presence.recordHeartbeat (h : Presence m) (hm : m.WellFormed) (agentId : String)
    (now : Nat) : Presence (m.recordHeartbeat agentId now) := by
  unfold MeshManager.recordHeartbeat
  cases hkey : m.peers.get agentId with
  | none => exact h
  | some ref =>
      obtain ⟨peer, hpeer, -⟩ := hm _ ref hkey
      dsimp only
      rw [hpeer, Option.any_some]
      by_cases hstatus : peer.status = .online
      · rw [if_pos (decide_eq_true hstatus)]
        exact h.modify_online hm hkey hpeer hstatus rfl
      · rw [if_neg (by simpa using hstatus)]
        apply h.switch true hm hkey hpeer
        · exact fun _ => rfl
        · simp [hstatus]
        · rfl

theorem Presence.confirmPeerDiscovery (h : Presence m) (hm : m.WellFormed)
    (honline : ∀ peer ∈ m.getPeer agentId, peer.status = .online) (discovered : DiscoveredPeer)
    (now : Nat) : Presence (m.confirmPeerDiscovery agentId discovered now) := by
  unfold MeshManager.confirmPeerDiscovery
  cases hkey : m.peers.get agentId with
  | none => exact h
  | some ref =>
      obtain ⟨peer, hpeer, -, hget⟩ := hm.exists_peer hkey
      exact h.modify_online hm hkey hpeer (honline peer hget) rfl

theorem Presence.handleMissedBeat (h : Presence m) (hm : m.WellFormed) {threshold : Nat}
    (hregistered : ∀ peer ∈ m.objects.get ref, threshold ≤ peer.missedBeats + 1 →
      m.peers.get peer.agentId = some ref ∧ peer.status = .online) :
    Presence (m.handleMissedBeat threshold ref) := by
  have hmissed : Presence (m.modify ref fun peer =>
      { peer with missedBeats := peer.missedBeats + 1 }) := h.modify_of_status fun _ => rfl
  unfold MeshManager.handleMissedBeat
  dsimp only
  cases hpeer : m.objects.get ref with
  | none =>
      rw [if_neg (by simp [hpeer])]
      exact hmissed
  | some peer =>
      by_cases hthreshold : threshold ≤ peer.missedBeats + 1
      · obtain ⟨hkey, hstatus⟩ := hregistered peer hpeer hthreshold
        rw [if_pos (by simpa [hpeer] using hthreshold)]
        apply hmissed.switch false (hm.modify fun _ => rfl) hkey
        · simp only [objects_modify, Arena.get_modify_self, hpeer, Option.map_some]
          rfl
        · exact fun _ => rfl
        · simp [hstatus]
        · rfl
      · rw [if_neg (by simpa [hpeer] using hthreshold)]
        exact hmissed

/-! ## Messages -/

variable {senderUri remoteHost : Option String} {b : Binding}

/-- The offline events of removed entries. -/
theorem offline_events {removed : List (String × PeerRef)}
    (hnodup : (removed.map Prod.fst).Nodup) (id : String) :
    ((removed.map fun p => (⟨false, p.1⟩ : PeerEvent)).filter fun event =>
      event.agentId = id).map (·.online) =
        if id ∈ removed.map Prod.fst then [false] else [] := by
  induction removed with
  | nil => rfl
  | cons p rest ih =>
      rw [List.map_cons, List.nodup_cons] at hnodup
      have hrest := ih hnodup.2
      rw [List.map_cons, List.filter_cons, List.map_cons]
      by_cases hid : p.1 = id
      · -- No later entry has the same key.
        subst hid
        rw [if_neg hnodup.1] at hrest
        simp [hrest]
      · have hmem : id ∈ p.1 :: rest.map Prod.fst ↔ id ∈ rest.map Prod.fst := by
          simp [Ne.symm hid]
        rw [if_neg (by simpa using hid), hrest]
        exact (if_congr hmem rfl rfl).symm

theorem eventsOf_of_events (hevents : m'.events = m.events ++
      (m.duplicates peerId b).map fun p => ⟨false, p.1⟩) (id : String) :
    eventsOf m' id =
      eventsOf m id ++ if id ∈ (m.duplicates peerId b).map Prod.fst then [false] else [] := by
  rw [eventsOf, hevents, List.filter_append, List.map_append, offline_events nodup_duplicates]
  rfl

/-- The object of an entry that is no duplicate is not removed. -/
theorem notMem_duplicates_of_fst (hm : m.WellFormed) (hkey : m.peers.get key = some ref)
    (hid : key ∉ (m.duplicates peerId b).map Prod.fst) :
    ref ∉ (m.duplicates peerId b).map Prod.snd := by
  intro hmem
  obtain ⟨p, hp, rfl⟩ := List.mem_map.mp hmem
  have hget := InsertionMap.get_eq_some_iff.mpr (mem_entries_of_duplicate hp)
  rw [hm.key_eq hkey hget] at hid
  exact hid (List.mem_map_of_mem hp)

theorem isOnline_of_duplicate (hm : m.WellFormed)
    (honline : ∀ p ∈ m.duplicates peerId b, ∀ peer ∈ m.objects.get p.2, peer.status = .online)
    (hid : key ∈ (m.duplicates peerId b).map Prod.fst) : isOnline m key = true := by
  obtain ⟨p, hp, rfl⟩ := List.mem_map.mp hid
  have hget := InsertionMap.get_eq_some_iff.mpr (mem_entries_of_duplicate hp)
  obtain ⟨peer, hpeer, -⟩ := hm _ _ hget
  rw [isOnline_of_get hget hpeer, honline p hp peer hpeer]
  rfl

/-- Presence survives if the removed duplicates are off afterwards and nothing else changes. -/
theorem Presence.of_removed (h : Presence m) (hm : m.WellFormed)
    (honline : ∀ p ∈ m.duplicates peerId b, ∀ peer ∈ m.objects.get p.2, peer.status = .online)
    (hevents : m'.events = m.events ++ (m.duplicates peerId b).map fun p => ⟨false, p.1⟩)
    (hremoved : ∀ id ∈ (m.duplicates peerId b).map Prod.fst, isOnline m' id = false)
    (hkept : ∀ id, id ∉ (m.duplicates peerId b).map Prod.fst → isOnline m' id = isOnline m id) :
    Presence m' := by
  intro id
  rw [eventsOf_of_events hevents]
  by_cases hid : id ∈ (m.duplicates peerId b).map Prod.fst
  · have hold := h id
    rw [isOnline_of_duplicate hm honline hid] at hold
    rw [if_pos hid, hremoved id hid]
    exact hold.switch
  · rw [if_neg hid, List.append_nil, hkept id hid]
    exact h id

theorem Presence.undone (h : Presence m) (hm : m.WellFormed)
    (hb : m.binding peerId senderUri remoteHost = some b) (hundone : Undone m peerId b m')
    (honline : ∀ p ∈ m.duplicates peerId b, ∀ peer ∈ m.objects.get p.2, peer.status = .online) :
    Presence m' := by
  apply h.of_removed hm honline hundone.events
  · intro id hid
    obtain ⟨p, hp, rfl⟩ := List.mem_map.mp hid
    have hget := InsertionMap.get_eq_some_iff.mpr (mem_entries_of_duplicate hp)
    rw [isOnline, getPeer, hundone.get_peers hm hb, hget, Option.bind_some, hundone.objects]
    cases m.objects.get p.2 with
    | none => rfl
    | some peer =>
        rw [Option.map_some, if_pos (List.mem_map_of_mem hp)]
        rfl
  · intro id hid
    rw [isOnline, isOnline, getPeer, getPeer, hundone.get_peers hm hb]
    cases hget : m.peers.get id with
    | none => rfl
    | some ref =>
        rw [Option.bind_some, Option.bind_some, hundone.objects]
        cases m.objects.get ref with
        | none => rfl
        | some peer => rw [Option.map_some, if_neg (notMem_duplicates_of_fst hm hget hid)]

/-- An entry that stays shows the status it had. -/
theorem isOnline_of_kept (hm : m.WellFormed) (hmarked : Marked m peerId b m')
    (hget : m'.peers.get key = m.peers.get key)
    (hid : key ∉ (m.duplicates peerId b).map Prod.fst) : isOnline m' key = isOnline m key := by
  rw [isOnline, isOnline, getPeer, getPeer, hget]
  cases hold : m.peers.get key with
  | none => rfl
  | some ref =>
      rw [Option.bind_some, Option.bind_some, hmarked.objects]
      cases m.objects.get ref with
      | none => rfl
      | some peer =>
          rw [Option.map_some]
          by_cases hself : ref = b.target
          · rw [if_pos hself]
            rfl
          · rw [if_neg hself, if_neg (notMem_duplicates_of_fst hm hold hid)]

theorem Presence.marked (h : Presence m) (hm : m.WellFormed)
    (hb : m.binding peerId senderUri remoteHost = some b) (hmarked : Marked m peerId b m')
    (honline : ∀ p ∈ m.duplicates peerId b, ∀ peer ∈ m.objects.get p.2, peer.status = .online)
    (htarget : b.Rekeys peerId → b.peer.status ≠ .online) : Presence m' := by
  obtain ⟨-, -, hpeer, -⟩ := binding_eq_some hb
  apply h.of_removed hm honline hmarked.events
  · intro id hid
    have hrekeys : ¬ b.Rekeys peerId := by
      intro hrekeys
      rw [hm.duplicates_of_rekeys hb hrekeys] at hid
      cases hid
    have hgone : m'.peers.get id = none := by
      rw [Option.eq_none_iff_forall_ne_some]
      intro ref hget
      rcases hmarked.get_peers.mp hget with ⟨-, hkept⟩ | ⟨hrekeys', -⟩
      · rw [moved, if_neg hrekeys] at hkept
        exact hkept hid
      · exact hrekeys hrekeys'
    rw [isOnline, getPeer, hgone]
    rfl
  · intro id hid
    by_cases hrekeys : b.Rekeys peerId
    · -- The target has its old key before and the sender's URI after the mark.
      have hoff := htarget hrekeys
      have hfree := (hm.rekeys_spec hb hrekeys).1
      by_cases hnew : id = b.senderUri
      · subst hnew
        have hget := hmarked.get_peers.mpr (.inr ⟨hrekeys, rfl, rfl⟩)
        rw [isOnline_of_get hget (hmarked.object_target hpeer), isOnline, getPeer, hfree]
        exact decide_eq_false hoff
      · have hmoved : (m.moved peerId b).map Prod.fst = [b.peer.agentId] := by
          rw [moved, if_pos hrekeys]
          rfl
        by_cases hprior : id = b.peer.agentId
        · have hgone : m'.peers.get id = none := by
            rw [Option.eq_none_iff_forall_ne_some]
            intro ref hget
            rcases hmarked.get_peers.mp hget with ⟨-, hkept⟩ | ⟨-, heq, -⟩
            · rw [hmoved, hprior] at hkept
              exact hkept (List.mem_singleton_self _)
            · exact hnew heq
          rw [isOnline, getPeer, hgone, hprior, isOnline_of_get (hm.get_target hb) hpeer]
          exact (decide_eq_false hoff).symm
        · apply isOnline_of_kept hm hmarked _ hid
          apply Option.ext
          intro ref
          rw [hmarked.get_peers, hmoved]
          simp [hprior, hnew]
    · apply isOnline_of_kept hm hmarked _ hid
      apply Option.ext
      intro ref
      rw [hmarked.get_peers, moved, if_neg hrekeys]
      simp [hrekeys, hid]

theorem Presence.message (h : Presence s.mesh) (hm : s.mesh.WellFormed)
    {message : InboundMessage} {now : Nat}
    (hkeeps : KeepsPresence opts s (.message message now)) :
    Presence (handleMessage opts.peerIdAttestingCaFingerprints s.mesh message now).mesh := by
  rcases handleMessage_cases hm opts.peerIdAttestingCaFingerprints message now with
    ⟨hmesh, -⟩ | ⟨peerId, b, hattested, hb, ⟨hundone, -⟩ | ⟨hmarked, senderKey, hkey, hne, hout⟩⟩
  · rw [hmesh]
    exact h
  · exact h.undone hm hb hundone (hkeeps peerId hattested b hb).1
  · obtain ⟨honline, hrefused⟩ := hkeeps peerId hattested b hb
    apply h.marked hm hb hmarked honline
    intro hrekeys hstatus
    rcases hrefused hrekeys hstatus senderKey hkey with hempty | hverdict
    · exact hne hempty
    · rw [hverdict] at hout
      simp at hout

/-! ## Every run -/

theorem presence_step (hm : s.mesh.WellFormed) (hknown : Known s.mesh) (h : Presence s.mesh)
    {a : MeshAction} (hkeeps : KeepsPresence opts s a) (hstep : (mesh opts).step s a = some s') :
    Presence s'.mesh := by
  cases a with
  | addPeer discovered now =>
      obtain rfl := Option.some.inj hstep
      exact h.addPeer hm hknown discovered now
  | removePeer agentId =>
      obtain rfl := Option.some.inj hstep
      -- a peer that is removed was online, so its leaving is its next event
      exact h.removePeer hm hkeeps
  | recordHeartbeat agentId now =>
      obtain rfl := Option.some.inj hstep
      exact h.recordHeartbeat hm agentId now
  | updateAgentCard agentId card =>
      obtain rfl := Option.some.inj hstep
      dsimp only [MeshManager.updateAgentCard]
      split
      · exact h.modify_of_status fun _ => rfl
      · exact h
  | confirmPeerDiscovery agentId discovered now =>
      obtain rfl := Option.some.inj hstep
      exact h.confirmPeerDiscovery hm hkeeps discovered now
  | recordAuthenticatedSeen entry now =>
      obtain rfl := Option.some.inj hstep
      exact h
  | message message now =>
      obtain rfl := Option.some.inj hstep
      exact h.message hm hkeeps
  | tick =>
      unfold mesh meshStep at hstep
      dsimp only at hstep
      split at hstep <;> obtain rfl := Option.some.inj hstep <;> exact h
  | checkSettles position ok now =>
      obtain ⟨check, hcheck, rfl⟩ := Option.map_eq_some_iff.mp hstep
      cases ok with
      | true => exact h.recordHeartbeat hm check.1 now
      | false => exact h.handleMissedBeat hm (hkeeps rfl check hcheck)

/-- In every run whose steps meet the condition, the events of every peer id alternate,
beginning with online, and the peer is online exactly if its last event was. -/
theorem presence_of_run (hs : (mesh opts).ReachableUnder (KeepsPresence opts) s) :
    Presence s.mesh := by
  have hboth : Known s.mesh ∧ Presence s.mesh := by
    refine Machine.ReachableUnder.invariant_with
      (I := fun s => Known s.mesh ∧ Presence s.mesh) (fun _ hs => Reachable.wellFormed hs) ?_ ?_ hs
    · refine ⟨?_, fun _ => tracks_nil⟩
      intro ref peer hpeer
      cases hpeer
    · intro s a s' hm h hkeeps hstep
      exact ⟨known_step hm h.1 hstep, presence_step hm h.1 h.2 hkeeps hstep⟩
  exact hboth.2

/-- Two failing checks take the node offline, and a confirmed discovery brings it back
without an event. -/
theorem presence_lost :
    ∃ s, (mesh ⟨2, ["CA"]⟩).Reachable s ∧ isOnline s.mesh nodeUri = true ∧
      eventsOf s.mesh nodeUri = [true, false] ∧ ¬ Presence s.mesh := by
  have hrun : ((mesh ⟨2, ["CA"]⟩).runFrom .init
      [.addPeer node 0, .tick, .checkSettles 0 false 1, .tick, .checkSettles 0 false 2,
        .confirmPeerDiscovery nodeUri node 3]).map (fun s =>
      (isOnline s.mesh nodeUri, eventsOf s.mesh nodeUri)) = some (true, [true, false]) := by
    decide
  obtain ⟨s, hs, hlook⟩ := Option.map_eq_some_iff.mp hrun
  obtain ⟨honline, hevents⟩ := Prod.mk.inj hlook
  refine ⟨s, Machine.reachable_of_runFrom hs, honline, hevents, ?_⟩
  intro hpresence
  have hlast := (hpresence nodeUri).last
  rw [honline, hevents] at hlast
  cases hlast

/-- A node that goes offline and comes back with a heartbeat. -/
theorem presence_of_run_heartbeat :
    ∃ s, (mesh ⟨2, ["CA"]⟩).Reachable s ∧ eventsOf s.mesh nodeUri = [true, false, true] ∧
      Presence s.mesh := by
  have hrun : ((mesh ⟨2, ["CA"]⟩).runFrom .init
      [.addPeer node 0, .tick, .checkSettles 0 false 1, .tick, .checkSettles 0 false 2,
        .recordHeartbeat nodeUri 3]).map (fun s => eventsOf s.mesh nodeUri) =
      some [true, false, true] := by
    decide
  obtain ⟨s, hs, hevents⟩ := Option.map_eq_some_iff.mp hrun
  have hreach : (mesh ⟨2, ["CA"]⟩).ReachableUnder (KeepsPresence ⟨2, ["CA"]⟩) s :=
    Machine.ReachableUnder.init.runFrom (by decide) hs
  exact ⟨s, hreach.reachable, hevents, presence_of_run hreach⟩

end ThinkLocal.Mesh
