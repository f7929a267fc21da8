import ThinkLocal.Mesh.MeshManager

/-!
# Entries and objects

In every mesh state the entry of a key refers to an object that carries this key as
its `agentId`, so no object is registered twice.  The lemmas of this file say what the
operations do to the entries and to the objects, in particular a loop of `removePeer`.
-/

namespace ThinkLocal.Mesh

open Foundation

/-- The peer after it was removed. -/
def MeshPeer.offline (peer : MeshPeer) : MeshPeer := { peer with status := .offline }

@[simp] theorem MeshPeer.offline_offline (peer : MeshPeer) :
    peer.offline.offline = peer.offline := rfl

@[simp] theorem MeshPeer.agentId_offline (peer : MeshPeer) :
    peer.offline.agentId = peer.agentId := rfl

@[simp] theorem MeshPeer.libp2p_offline (peer : MeshPeer) :
    peer.offline.libp2p = peer.libp2p := rfl

theorem MeshPeer.offline_eq_self_iff {peer : MeshPeer} :
    peer.offline = peer ↔ peer.status = .offline := by
  constructor
  · intro h
    rw [← h]
    rfl
  · intro h
    rw [offline, ← h]

namespace MeshManager

variable {m : MeshManager} {ref : PeerRef} {peer : MeshPeer} {key : String}

/-! ## Changes of one object -/

@[simp] theorem objects_modify (f : MeshPeer → MeshPeer) :
    (m.modify ref f).objects = m.objects.modify ref f := rfl

@[simp] theorem peers_modify (f : MeshPeer → MeshPeer) : (m.modify ref f).peers = m.peers := rfl

@[simp] theorem events_modify (f : MeshPeer → MeshPeer) :
    (m.modify ref f).events = m.events := rfl

@[simp] theorem authenticatedSeen_modify (f : MeshPeer → MeshPeer) :
    (m.modify ref f).authenticatedSeen = m.authenticatedSeen := rfl

@[simp] theorem objects_emit (online : Bool) : (m.emit online ref).objects = m.objects := by
  unfold emit
  split <;> rfl

@[simp] theorem peers_emit (online : Bool) : (m.emit online ref).peers = m.peers := by
  unfold emit
  split <;> rfl

@[simp] theorem authenticatedSeen_emit (online : Bool) :
    (m.emit online ref).authenticatedSeen = m.authenticatedSeen := by
  unfold emit
  split <;> rfl

theorem emit_of_get (online : Bool) (h : m.objects.get ref = some peer) :
    m.emit online ref = { m with events := m.events ++ [⟨online, peer.agentId⟩] } := by
  rw [emit, h]

/-! ## Well-formed managers -/

/-- Every entry refers to an object that carries the key of the entry. -/
def WellFormed (m : MeshManager) : Prop :=
  ∀ key ref, m.peers.get key = some ref →
    ∃ peer, m.objects.get ref = some peer ∧ peer.agentId = key

namespace WellFormed

variable (h : m.WellFormed)

include h

theorem agentId_eq (hkey : m.peers.get key = some ref) (hpeer : m.objects.get ref = some peer) :
    peer.agentId = key := by
  obtain ⟨peer', hpeer', hid⟩ := h key ref hkey
  obtain rfl := Option.some.inj (hpeer.symm.trans hpeer')
  exact hid

/-- An object has one key. -/
theorem key_eq {key' : String} (hkey : m.peers.get key = some ref)
    (hkey' : m.peers.get key' = some ref) : key = key' := by
  obtain ⟨peer, hpeer, rfl⟩ := h key ref hkey
  exact h.agentId_eq hkey' hpeer

/-- The object under a key. -/
theorem exists_peer (hkey : m.peers.get key = some ref) :
    ∃ peer, m.objects.get ref = some peer ∧ peer.agentId = key ∧ m.getPeer key = some peer := by
  obtain ⟨peer, hpeer, hid⟩ := h key ref hkey
  exact ⟨peer, hpeer, hid, by rw [getPeer, hkey, Option.bind_some, hpeer]⟩

/-- An operation that adds no entry and changes no `agentId` keeps the managers well-formed. -/
theorem of_subset {m' : MeshManager}
    (hpeers : ∀ key ref, m'.peers.get key = some ref → m.peers.get key = some ref)
    (hobjects : ∀ ref peer, m.objects.get ref = some peer →
      ∃ peer', m'.objects.get ref = some peer' ∧ peer'.agentId = peer.agentId) :
    m'.WellFormed := by
  intro key ref hkey
  obtain ⟨peer, hpeer, hid⟩ := h key ref (hpeers key ref hkey)
  obtain ⟨peer', hpeer', hid'⟩ := hobjects ref peer hpeer
  exact ⟨peer', hpeer', hid'.trans hid⟩

theorem modify {f : MeshPeer → MeshPeer} (hf : ∀ peer, (f peer).agentId = peer.agentId) :
    (m.modify ref f).WellFormed := by
  apply h.of_subset
  · exact fun _ _ hkey => hkey
  · intro ref' peer hpeer
    rw [objects_modify, Arena.get_modify, hpeer]
    split
    · exact ⟨f peer, rfl, hf peer⟩
    · exact ⟨peer, rfl, rfl⟩

theorem emit (online : Bool) : (m.emit online ref).WellFormed := by
  apply h.of_subset
  · simp
  · intro ref' peer hpeer
    exact ⟨peer, by simpa using hpeer, rfl⟩

end WellFormed

theorem wellFormed_empty : empty.WellFormed := by
  intro key ref hkey
  cases hkey

/-! ## The registered peers -/

/-- The registered peers in the order of the map. -/
def registered (m : MeshManager) : List MeshPeer :=
  m.peers.entries.filterMap fun p => m.objects.get p.2

theorem map_snd_refs : m.refs.map Prod.snd = m.registered := by
  simp only [refs, registered, InsertionMap.values, List.map_filterMap, List.filterMap_map]
  apply List.filterMap_congr
  intro p _
  cases h : m.objects.get p.2 <;> simp [h]

theorem mem_refs_iff :
    (ref, peer) ∈ m.refs ↔ ref ∈ m.peers.values ∧ m.objects.get ref = some peer := by
  simp only [refs, List.mem_filterMap, Option.map_eq_some_iff, Prod.mk.injEq]
  constructor
  · rintro ⟨ref', hmem, peer', hpeer, rfl, rfl⟩
    exact ⟨hmem, hpeer⟩
  · rintro ⟨hmem, hpeer⟩
    exact ⟨ref, hmem, peer, hpeer, rfl, rfl⟩

theorem verifiedKeys_eq (peerId : String) :
    m.verifiedKeys peerId = m.peers.entries.filterMap fun p =>
      (m.objects.get p.2).bind fun peer =>
        if verifiedFor peerId peer then peer.publicKey else none := by
  rw [verifiedKeys, map_snd_refs, registered, List.filterMap_filterMap]

/-- The key depends on the card only. -/
theorem bind_publicKey (o : Option MeshPeer) :
    o.bind MeshPeer.publicKey = (o.map fun peer => peer.agentCard).bind fun card =>
      (card.map (·.publicKey)).filter fun key => key ≠ "" := by
  cases o <;> rfl

theorem cardKey_congr {l l' : List MeshPeer} (h : l.map (·.agentCard) = l'.map (·.agentCard))
    (uri : String) : cardKey l uri = cardKey l' uri := by
  have hcards : ∀ l, cardKey l uri =
      ((l.map fun peer : MeshPeer => peer.agentCard).find? fun card =>
        ((card.map (·.publicKey)).filter fun key => key ≠ "").isSome ∧
          card.any fun card => card.spiffeUri = uri).bind
        fun card => (card.map (·.publicKey)).filter fun key => key ≠ "" := by
    intro l
    rw [List.find?_map, ← bind_publicKey]
    rfl
  rw [hcards, hcards, h]

/-! ## Removals -/

theorem removePeer_of_absent (h : m.peers.get key = none) : m.removePeer key = m := by
  rw [removePeer, h]

/-- What a removal leaves. -/
theorem removePeer_of_get (h : m.peers.get key = some ref)
    (hpeer : m.objects.get ref = some peer) :
    m.removePeer key =
      { objects := m.objects.modify ref MeshPeer.offline
        peers := m.peers.delete key
        authenticatedSeen := m.authenticatedSeen
        events := m.events ++ [⟨false, peer.agentId⟩] } := by
  have hget : (m.modify ref MeshPeer.offline).objects.get ref = some peer.offline := by
    simp [hpeer]
  have hsame : (m.modify ref fun peer => { peer with status := .offline }) =
      m.modify ref MeshPeer.offline := rfl
  rw [removePeer, h]
  dsimp only
  rw [hsame, emit_of_get false hget]
  rfl

theorem WellFormed.removePeer (h : m.WellFormed) : (m.removePeer key).WellFormed := by
  cases hkey : m.peers.get key with
  | none =>
      rw [removePeer_of_absent hkey]
      exact h
  | some ref =>
      obtain ⟨peer, hpeer, -⟩ := h key ref hkey
      rw [removePeer_of_get hkey hpeer]
      apply h.of_subset
      · exact fun _ _ hkey' => (InsertionMap.get_of_get_delete hkey').2
      · intro ref' peer' hpeer'
        dsimp only
        rw [Arena.get_modify, hpeer']
        split
        · exact ⟨peer'.offline, rfl, rfl⟩
        · exact ⟨peer', rfl, rfl⟩

/-- The state after all entries of a list were removed. -/
structure Pruned (m : MeshManager) (removed : List (String × PeerRef)) (m' : MeshManager) :
    Prop where
  objects : ∀ ref, m'.objects.get ref = (m.objects.get ref).map fun peer =>
    if ref ∈ removed.map Prod.snd then peer.offline else peer
  entries : m'.peers.entries = m.peers.entries.filter fun p => p.1 ∉ removed.map Prod.fst
  authenticatedSeen : m'.authenticatedSeen = m.authenticatedSeen
  events : m'.events = m.events ++ removed.map fun p => ⟨false, p.1⟩

/-- The loop of the supersession removes its entries, in their order. -/
theorem pruned_foldl_removePeer {removed : List (String × PeerRef)} (h : m.WellFormed)
    (hmem : ∀ p ∈ removed, p ∈ m.peers.entries) (hnodup : (removed.map Prod.fst).Nodup) :
    Pruned m removed (removed.foldl (fun m p => m.removePeer p.1) m) := by
  induction removed generalizing m with
  | nil =>
      refine ⟨?_, ?_, rfl, ?_⟩
      · simp
      · simp
      · simp
  | cons p rest ih =>
      obtain ⟨key, ref⟩ := p
      rw [List.map_cons, List.nodup_cons] at hnodup
      have hkey : m.peers.get key = some ref :=
        InsertionMap.get_eq_some_iff.mpr (hmem (key, ref) List.mem_cons_self)
      obtain ⟨peer, hpeer, hid⟩ := h key ref hkey
      have hfirst := removePeer_of_get hkey hpeer
      -- the keys differ, so the first removal leaves the other entries
      have hrest : ∀ q ∈ rest, q ∈ (m.removePeer key).peers.entries := by
        intro q hq
        rw [hfirst]
        refine InsertionMap.mem_entries_delete.mpr ⟨?_, hmem q (List.mem_cons_of_mem _ hq)⟩
        exact fun heq => hnodup.1 (List.mem_map.mpr ⟨q, hq, heq⟩)
      have hpruned := ih h.removePeer hrest hnodup.2
      rw [List.foldl_cons]
      refine ⟨?_, ?_, ?_, ?_⟩
      · intro ref'
        rw [hpruned.objects, hfirst]
        dsimp only
        rw [Arena.get_modify, List.map_cons]
        cases m.objects.get ref' with
        | none => simp
        | some peer' =>
            by_cases hself : ref' = ref <;> by_cases hlater : ref' ∈ rest.map Prod.snd <;>
              simp [hself, hlater]
      · rw [hpruned.entries, hfirst]
        simp only [InsertionMap.delete, List.filter_filter]
        apply List.filter_congr
        intro q _
        by_cases hself : q.1 = key <;> by_cases hlater : q.1 ∈ rest.map Prod.fst <;>
          simp [hself, hlater]
      · rw [hpruned.authenticatedSeen, hfirst]
      · rw [hpruned.events, hfirst, List.map_cons, hid, List.append_assoc]
        rfl

end MeshManager

end ThinkLocal.Mesh
