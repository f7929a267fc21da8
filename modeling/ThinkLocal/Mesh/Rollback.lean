import ThinkLocal.Foundation.KeyedEntries
import ThinkLocal.Mesh.Handling

/-!
# The rollback of a mark

A mark whose envelope turns out to be invalid is to leave no trace.  The rollback
restores the bindings and the keys of the map, but `removePeer` has set the superseded
duplicates offline, and what was deleted from the map and written again stands at its
end.  In the handler every exit rolls back except the `catch`.
-/

namespace ThinkLocal.Mesh

open Foundation MeshManager

variable {m m' : MeshManager} {peerId : String} {senderUri remoteHost : Option String}
  {b : Binding}

/-! ## What is to be restored, and when it is -/

/-- The state after a mark and the `rollback` of its result. -/
def MeshManager.markAndRollback (m : MeshManager) (peerId : String)
    (senderUri remoteHost : Option String) : MeshManager :=
  let marked := m.markPeerIdVerified peerId senderUri remoteHost
  rollbackMark marked.1 (some (peerId, marked.2))

/-- All entries and the results of all readers are the same. -/
structure Restored (m m' : MeshManager) : Prop where
  keys : ∀ key, m'.peers.get key = m.peers.get key
  entries : ∀ key, m'.getPeer key = m.getPeer key
  onlinePeers : m'.getOnlinePeers = m.getOnlinePeers
  peerCounts : m'.getPeerCounts = m.getPeerCounts
  publicKey : ∀ uri now, m'.resolvePeerPublicKey uri now = m.resolvePeerPublicKey uri now
  approved : ∀ uri, m'.isApprovedPeerSender uri = m.isApprovedPeerSender uri

/-- The peers whose entries stay where they are. -/
def MeshManager.keptPeers (m : MeshManager) (peerId : String) (b : Binding) : List MeshPeer :=
  (m.peers.entries.filter fun p => p.1 ∉ (m.moved peerId b).map Prod.fst).filterMap
    fun p => m.objects.get p.2

/-- Nothing that the mark touches is seen by a reader. -/
structure Undoable (m : MeshManager) (peerId : String) (b : Binding) : Prop where
  /-- The duplicates are offline already. -/
  duplicates : ∀ p ∈ m.duplicates peerId b, ∀ peer, m.objects.get p.2 = some peer →
    peer.status = .offline
  /-- No online peer stands behind an online target that is moved. -/
  behind : b.Rekeys peerId → b.peer.status = .online → ∀ before after,
    m.peers.entries = before ++ (b.peer.agentId, b.target) :: after →
    ∀ p ∈ after, ∀ peer, m.objects.get p.2 = some peer → peer.status ≠ .online
  /-- The first card with a legacy URI among the entries that stay has the key of the
  first one of all. -/
  cards : ∀ uri key, spiffeUriToPeerId uri = none →
    (m.getPeer uri).bind MeshPeer.publicKey = none →
    cardKey (m.keptPeers peerId b) uri = some key → cardKey m.registered uri = some key

/-! ## Readers of reordered entries -/

/-- A peer with a key whose card carries the URI. -/
def carries (uri : String) (peer : MeshPeer) : Bool :=
  peer.publicKey.isSome ∧ peer.agentCard.any fun card => card.spiffeUri = uri

theorem cardKey_eq (l : List MeshPeer) (uri : String) :
    cardKey l uri = (l.find? (carries uri)).bind MeshPeer.publicKey := rfl

theorem publicKey_of_carries {uri : String} {peer : MeshPeer} (h : carries uri peer = true) :
    ∃ key, peer.publicKey = some key :=
  Option.isSome_iff_exists.mp (of_decide_eq_true h).1

theorem cardKey_isSome_iff {l : List MeshPeer} {uri : String} :
    (cardKey l uri).isSome = true ↔ ∃ peer ∈ l, carries uri peer = true := by
  rw [cardKey_eq]
  constructor
  · intro hsome
    obtain ⟨key, hkey⟩ := Option.isSome_iff_exists.mp hsome
    obtain ⟨peer, hfound, -⟩ := Option.bind_eq_some_iff.mp hkey
    exact ⟨peer, List.mem_of_find?_eq_some hfound, List.find?_some hfound⟩
  · rintro ⟨peer, hmem, hcarries⟩
    cases hfound : l.find? (carries uri) with
    | none => exact absurd hcarries (List.find?_eq_none.mp hfound peer hmem)
    | some first =>
        obtain ⟨key, hkey⟩ := publicKey_of_carries (List.find?_some hfound)
        rw [Option.bind_some, hkey]
        rfl

section Reordered

variable (hobjects : ∀ ref, m'.objects.get ref = m.objects.get ref)
  (hperm : m'.peers.entries.Perm m.peers.entries)
  (hseen : m'.authenticatedSeen = m.authenticatedSeen)

include hperm in
theorem get_peers_of_perm (key : String) : m'.peers.get key = m.peers.get key :=
  InsertionMap.get_eq_of_mem_iff (fun _ => hperm.mem_iff) key

include hobjects hperm

theorem getPeer_of_perm (key : String) : m'.getPeer key = m.getPeer key := by
  rw [getPeer, getPeer, get_peers_of_perm hperm]
  cases m.peers.get key with
  | none => rfl
  | some ref => exact hobjects ref

theorem registered_perm : m'.registered.Perm m.registered := by
  rw [registered, registered]
  simp only [hobjects]
  exact hperm.filterMap _

theorem getPeerCounts_of_perm : m'.getPeerCounts = m.getPeerCounts := by
  have hregistered := registered_perm hobjects hperm
  rw [getPeerCounts, getPeerCounts, map_snd_refs, map_snd_refs, InsertionMap.size,
    InsertionMap.size, hperm.length_eq, (hregistered.filter _).length_eq,
    (hregistered.filter _).length_eq]

theorem verifiedKeys_perm (peerId : String) :
    (m'.verifiedKeys peerId).Perm (m.verifiedKeys peerId) := by
  rw [verifiedKeys, verifiedKeys, map_snd_refs, map_snd_refs]
  exact (registered_perm hobjects hperm).filterMap _

include hseen in
theorem resolve_canonical_of_perm {uri : String} (huri : spiffeUriToPeerId uri = some peerId)
    (now : Nat) : m'.resolvePeerPublicKey uri now = m.resolvePeerPublicKey uri now := by
  have hkeys := verifiedKeys_perm hobjects hperm peerId
  rw [resolve_of_canonical huri, resolve_of_canonical huri, seenKey, hseen, ← seenKey]
  cases hlist : m.verifiedKeys peerId with
  | nil => rw [hlist, List.perm_nil] at hkeys; rw [hkeys]
  | cons key rest =>
      cases rest with
      | nil => rw [hlist, List.perm_singleton] at hkeys; rw [hkeys]
      | cons key' rest =>
          have hlength := hkeys.length_eq
          rw [hlist] at hlength
          rcases hlist' : m'.verifiedKeys peerId with _ | ⟨_, _ | ⟨_, _⟩⟩
          · simp [hlist'] at hlength
          · simp [hlist'] at hlength
          · rfl

theorem cardKey_isSome_of_perm (uri : String) :
    (cardKey m'.registered uri).isSome = (cardKey m.registered uri).isSome := by
  rw [Bool.eq_iff_iff, cardKey_isSome_iff, cardKey_isSome_iff]
  simp only [(registered_perm hobjects hperm).mem_iff]

theorem isApprovedPeerSender_of_perm (uri : String) :
    m'.isApprovedPeerSender uri = m.isApprovedPeerSender uri := by
  have hregistered := registered_perm hobjects hperm
  rw [isApprovedPeerSender, isApprovedPeerSender, map_snd_refs, map_snd_refs]
  cases spiffeUriToPeerId uri with
  | none =>
      dsimp only
      rw [getPeer_of_perm hobjects hperm, cardKey_isSome_of_perm hobjects hperm]
  | some peerId =>
      dsimp only
      rw [(hregistered.filter _).length_eq]

include hseen in
/-- What remains are the readers that see the order of the entries. -/
theorem restored_iff_of_perm :
    Restored m m' ↔ m'.getOnlinePeers = m.getOnlinePeers ∧
      ∀ uri, spiffeUriToPeerId uri = none → (m.getPeer uri).bind MeshPeer.publicKey = none →
        cardKey m'.registered uri = cardKey m.registered uri := by
  have hgetPeer := getPeer_of_perm hobjects hperm
  constructor
  · intro h
    refine ⟨h.onlinePeers, ?_⟩
    intro uri huri hdirect
    have hkey := h.publicKey uri 0
    rw [resolve_of_legacy huri, resolve_of_legacy huri, hgetPeer, hdirect] at hkey
    exact hkey
  · rintro ⟨honline, hcards⟩
    refine ⟨get_peers_of_perm hperm, hgetPeer, honline, getPeerCounts_of_perm hobjects hperm,
      ?_, isApprovedPeerSender_of_perm hobjects hperm⟩
    intro uri now
    cases huri : spiffeUriToPeerId uri with
    | some peerId => exact resolve_canonical_of_perm hobjects hperm hseen huri now
    | none =>
        rw [resolve_of_legacy huri, resolve_of_legacy huri, hgetPeer]
        cases hdirect : (m.getPeer uri).bind MeshPeer.publicKey with
        | some key => rfl
        | none => rw [hcards uri huri hdirect]

end Reordered

/-! ## The entries after a rollback -/

theorem moved_sublist (hm : m.WellFormed) (hb : m.binding peerId senderUri remoteHost = some b) :
    (m.moved peerId b).Sublist m.peers.entries := by
  unfold moved
  split
  · rw [List.singleton_sublist]
    exact InsertionMap.get_eq_some_iff.mp (hm.get_target hb)
  · unfold MeshManager.duplicates
    split
    · exact List.filter_sublist
    · exact List.nil_sublist _

/-- Is the key one of those that the rollback writes again? -/
def movedKey (m : MeshManager) (peerId : String) (b : Binding) (p : String × PeerRef) : Bool :=
  p.1 ∈ (m.moved peerId b).map Prod.fst

theorem MeshManager.Undone.entries_eq (h : Undone m peerId b m') (hm : m.WellFormed)
    (hb : m.binding peerId senderUri remoteHost = some b) :
    m'.peers.entries = moveToEnd (movedKey m peerId b) m.peers.entries := by
  have hmoved := filter_key_mem_sublist (moved_sublist hm hb) m.peers.nodup
  have hkept : (m.peers.entries.filter fun p => p.1 ∉ (m.moved peerId b).map Prod.fst) =
      m.peers.entries.filter fun p => !movedKey m peerId b p := by
    simp only [movedKey, decide_not]
  rw [h.entries, hkept, moveToEnd]
  congr 1
  exact hmoved.symm

/-- If the duplicates were offline, no object is changed. -/
theorem MeshManager.Undone.objects_eq (h : Undone m peerId b m')
    (hoffline : ∀ p ∈ m.duplicates peerId b, ∀ peer, m.objects.get p.2 = some peer →
      peer.status = .offline) (ref : PeerRef) : m'.objects.get ref = m.objects.get ref := by
  rw [h.objects]
  cases hpeer : m.objects.get ref with
  | none => rfl
  | some peer =>
      rw [Option.map_some]
      split
      · rename_i hmem
        obtain ⟨p, hp, rfl⟩ := List.mem_map.mp hmem
        rw [MeshPeer.offline_eq_self_iff.mpr (hoffline p hp peer hpeer)]
      · rfl

/-- A removed duplicate comes back offline. -/
theorem MeshManager.Undone.offline_of_restored (h : Undone m peerId b m')
    (hrestored : ∀ key, m'.getPeer key = m.getPeer key)
    (hkeys : ∀ key, m'.peers.get key = m.peers.get key) {p : String × PeerRef}
    (hp : p ∈ m.duplicates peerId b) {peer : MeshPeer} (hpeer : m.objects.get p.2 = some peer) :
    peer.status = .offline := by
  have hget : m.peers.get p.1 = some p.2 :=
    InsertionMap.get_eq_some_iff.mpr (mem_entries_of_duplicate hp)
  have hsame := hrestored p.1
  rw [getPeer, getPeer, hkeys, hget, Option.bind_some, Option.bind_some, h.objects, hpeer,
    Option.map_some, if_pos (List.mem_map_of_mem hp)] at hsame
  exact MeshPeer.offline_eq_self_iff.mp (Option.some.inj hsame)

/-! ## The readers that see the order -/

theorem getOnlinePeers_eq (m : MeshManager) :
    m.getOnlinePeers = m.peers.entries.filterMap fun p =>
      (m.objects.get p.2).filter fun peer => peer.status = .online := by
  rw [getOnlinePeers, map_snd_refs, registered, List.filter_filterMap]

theorem mem_moved_of_movedKey (hm : m.WellFormed)
    (hb : m.binding peerId senderUri remoteHost = some b) {p : String × PeerRef}
    (hp : p ∈ m.peers.entries) (hkey : movedKey m peerId b p = true) : p ∈ m.moved peerId b :=
  mem_moved_of_fst hm hb hp (of_decide_eq_true hkey)

/-- The peer of an entry, if it is online. -/
def onlinePeer (m : MeshManager) (p : String × PeerRef) : Option MeshPeer :=
  (m.objects.get p.2).filter fun peer => peer.status = .online

theorem onlinePeer_eq_none_iff {p : String × PeerRef} :
    onlinePeer m p = none ↔ ∀ peer, m.objects.get p.2 = some peer → peer.status ≠ .online := by
  simp [onlinePeer, Option.filter_eq_none_iff]

/-- An online target that moves to the end must have no online peer behind it. -/
theorem listed_after_move_iff (hm : m.WellFormed)
    (hb : m.binding peerId senderUri remoteHost = some b) (hrekeys : b.Rekeys peerId)
    (honline : b.peer.status = .online) {before after : List (String × PeerRef)}
    (hsplit : m.peers.entries = before ++ (b.peer.agentId, b.target) :: after) :
    (moveToEnd (movedKey m peerId b) m.peers.entries).filterMap (onlinePeer m) =
        m.peers.entries.filterMap (onlinePeer m) ↔
      ∀ p ∈ after, ∀ peer, m.objects.get p.2 = some peer → peer.status ≠ .online := by
  obtain ⟨-, -, htarget, -⟩ := binding_eq_some hb
  have hnodup := m.peers.nodup
  rw [hsplit, List.map_append, List.map_cons, List.nodup_middle, List.nodup_cons,
    List.mem_append] at hnodup
  have hmoved : ∀ p, movedKey m peerId b p = decide (p.1 = b.peer.agentId) := by
    intro p
    simp [movedKey, moved, hrekeys]
  -- the keys of the others differ, so they keep their places
  have hother : ∀ p, p ∈ before ∨ p ∈ after → p.1 ≠ b.peer.agentId := by
    intro p hp heq
    apply hnodup.1
    rcases hp with hp | hp
    · exact .inl (List.mem_map.mpr ⟨p, hp, heq⟩)
    · exact .inr (List.mem_map.mpr ⟨p, hp, heq⟩)
  have hstays : ∀ p, p ∈ before ∨ p ∈ after → movedKey m peerId b p = false := by
    intro p hp
    rw [hmoved]
    exact decide_eq_false (hother p hp)
  have hself : movedKey m peerId b (b.peer.agentId, b.target) = true := by
    rw [hmoved]
    exact decide_eq_true rfl
  -- nobody behind the target is listed as the same peer
  have hbehind : ∀ p ∈ after, onlinePeer m p ≠ some b.peer := by
    intro p hp hsome
    obtain ⟨hpeer, -⟩ := Option.filter_eq_some_iff.mp hsome
    have hentry : p ∈ m.peers.entries := by
      rw [hsplit]
      exact List.mem_append_right _ (List.mem_cons_of_mem _ hp)
    have hkey := hm.agentId_eq (InsertionMap.get_eq_some_iff.mpr hentry) hpeer
    exact hother p (.inr hp) hkey.symm
  have hlisted : onlinePeer m (b.peer.agentId, b.target) = some b.peer := by
    simp [onlinePeer, htarget, honline]
  rw [hsplit, filterMap_moveToEnd_eq_iff (fun p hp => hstays p (.inl hp))
    (fun p hp => hstays p (.inr hp)) hself hlisted hbehind]
  simp only [onlinePeer_eq_none_iff]

theorem MeshManager.Undone.getOnlinePeers_eq_iff (h : Undone m peerId b m') (hm : m.WellFormed)
    (hb : m.binding peerId senderUri remoteHost = some b)
    (hoffline : ∀ p ∈ m.duplicates peerId b, ∀ peer, m.objects.get p.2 = some peer →
      peer.status = .offline) :
    m'.getOnlinePeers = m.getOnlinePeers ↔
      (b.Rekeys peerId → b.peer.status = .online → ∀ before after,
        m.peers.entries = before ++ (b.peer.agentId, b.target) :: after →
        ∀ p ∈ after, ∀ peer, m.objects.get p.2 = some peer → peer.status ≠ .online) := by
  obtain ⟨-, -, htarget, -⟩ := binding_eq_some hb
  have hread : m'.getOnlinePeers =
      (moveToEnd (movedKey m peerId b) m.peers.entries).filterMap (onlinePeer m) := by
    rw [getOnlinePeers_eq, h.entries_eq hm hb]
    simp only [h.objects_eq hoffline]
    rfl
  rw [hread, getOnlinePeers_eq]
  by_cases honline : b.Rekeys peerId ∧ b.peer.status = .online
  · obtain ⟨hrekeys, hstatus⟩ := honline
    have hentry := InsertionMap.get_eq_some_iff.mp (hm.get_target hb)
    constructor
    · intro hsame _ _ before after hsplit
      exact (listed_after_move_iff hm hb hrekeys hstatus hsplit).mp hsame
    · intro hbehind
      obtain ⟨before, after, hsplit⟩ := List.append_of_mem hentry
      exact (listed_after_move_iff hm hb hrekeys hstatus hsplit).mpr
        (hbehind hrekeys hstatus before after hsplit)
  · -- All entries that are moved are offline.
    have hnone : ∀ p ∈ m.peers.entries, movedKey m peerId b p = true →
        onlinePeer m p = none := by
      intro p hp hkey
      rw [onlinePeer_eq_none_iff]
      intro peer hpeer hstatus
      have hmoved := mem_moved_of_movedKey hm hb hp hkey
      unfold moved at hmoved
      split at hmoved
      · rename_i hrekeys
        rw [List.mem_singleton.mp hmoved, htarget] at hpeer
        obtain rfl := Option.some.inj hpeer
        exact honline ⟨hrekeys, hstatus⟩
      · rw [hoffline p hmoved peer hpeer] at hstatus
        cases hstatus
    constructor
    · intro _ hrekeys hstatus
      exact absurd ⟨hrekeys, hstatus⟩ honline
    · intro _
      exact filterMap_moveToEnd_of_none hnone

/-- The key of the first card among the peers of some entries. -/
theorem cardKey_filterMap (l : List (String × PeerRef)) (uri : String) :
    cardKey (l.filterMap fun p => m.objects.get p.2) uri =
      (l.find? fun p => (m.objects.get p.2).any (carries uri)).bind fun p =>
        (m.objects.get p.2).bind MeshPeer.publicKey := by
  rw [cardKey_eq, List.find?_filterMap, Option.bind_assoc]

theorem MeshManager.Undone.cardKey_eq (h : Undone m peerId b m') (hm : m.WellFormed)
    (hb : m.binding peerId senderUri remoteHost = some b)
    (hoffline : ∀ p ∈ m.duplicates peerId b, ∀ peer, m.objects.get p.2 = some peer →
      peer.status = .offline) (uri : String) :
    cardKey m'.registered uri =
      (cardKey (m.keptPeers peerId b) uri).or (cardKey m.registered uri) := by
  have hkept : (m.peers.entries.filter fun p => p.1 ∉ (m.moved peerId b).map Prod.fst) =
      m.peers.entries.filter fun p => !movedKey m peerId b p := by
    simp only [movedKey, decide_not]
  have hregistered : m'.registered =
      (moveToEnd (movedKey m peerId b) m.peers.entries).filterMap fun p =>
        m.objects.get p.2 := by
    rw [registered, h.entries_eq hm hb]
    simp only [h.objects_eq hoffline]
  rw [hregistered, registered, keptPeers, hkept, cardKey_filterMap, cardKey_filterMap,
    cardKey_filterMap, find?_moveToEnd]
  cases hfound : (m.peers.entries.filter fun p => !movedKey m peerId b p).find? fun p =>
      (m.objects.get p.2).any (carries uri) with
  | none => rfl
  | some p =>
      have hcarries := List.find?_some hfound
      cases hpeer : m.objects.get p.2 with
      | none =>
          rw [hpeer] at hcarries
          cases hcarries
      | some peer =>
          rw [hpeer] at hcarries
          obtain ⟨key, hkey⟩ := publicKey_of_carries hcarries
          rw [Option.some_or, Option.bind_some, hpeer, Option.bind_some, hkey, Option.some_or]

/-! ## When a mark leaves no trace -/

theorem restored_iff_undoable (hm : m.WellFormed)
    (hb : m.binding peerId senderUri remoteHost = some b) :
    Restored m (m.markAndRollback peerId senderUri remoteHost) ↔ Undoable m peerId b := by
  have h : Undone m peerId b (m.markAndRollback peerId senderUri remoteHost) := hm.undone hb
  have hperm : (m.markAndRollback peerId senderUri remoteHost).peers.entries.Perm
      m.peers.entries := by
    rw [h.entries_eq hm hb]
    exact moveToEnd_perm _ _
  constructor
  · intro hrestored
    have hoffline : ∀ p ∈ m.duplicates peerId b, ∀ peer, m.objects.get p.2 = some peer →
        peer.status = .offline :=
      fun p hp peer hpeer => h.offline_of_restored hrestored.entries hrestored.keys hp hpeer
    obtain ⟨honline, hcards⟩ := (restored_iff_of_perm (h.objects_eq hoffline) hperm
      h.authenticatedSeen).mp hrestored
    refine ⟨hoffline, (h.getOnlinePeers_eq_iff hm hb hoffline).mp honline, ?_⟩
    intro uri key huri hdirect hkey
    rw [← hcards uri huri hdirect, h.cardKey_eq hm hb hoffline, hkey, Option.some_or]
  · intro hundoable
    have hoffline := hundoable.duplicates
    apply (restored_iff_of_perm (h.objects_eq hoffline) hperm h.authenticatedSeen).mpr
    refine ⟨(h.getOnlinePeers_eq_iff hm hb hoffline).mpr hundoable.behind, ?_⟩
    intro uri huri hdirect
    rw [h.cardKey_eq hm hb hoffline]
    cases hkey : cardKey (m.keptPeers peerId b) uri with
    | none => rw [Option.none_or]
    | some key => rw [hundoable.cards uri key huri hdirect hkey, Option.some_or]

/-- A state with the same entries and objects. -/
theorem restored_of_same (hobjects : ∀ ref, m'.objects.get ref = m.objects.get ref)
    (hpeers : m'.peers = m.peers) (hseen : m'.authenticatedSeen = m.authenticatedSeen) :
    Restored m m' := by
  have hregistered : m'.registered = m.registered := by
    rw [registered, registered, hpeers]
    simp only [hobjects]
  apply (restored_iff_of_perm hobjects (by rw [hpeers]) hseen).mpr
  refine ⟨?_, ?_⟩
  · rw [getOnlinePeers, getOnlinePeers, map_snd_refs, map_snd_refs, hregistered]
  · intro uri _ _
    rw [hregistered]

/-- The rollback of a mark without a sender gives the flag its old value. -/
theorem restored_of_no_sender (huri : (senderUri.filter fun uri => uri ≠ "") = none) :
    Restored m (m.markAndRollback peerId senderUri remoteHost) := by
  unfold markAndRollback markPeerIdVerified
  rw [huri]
  dsimp only
  split
  · rename_i target t hunique
    have hmem : (target, t) ∈ m.refs := by
      have hfound : (target, t) ∈ m.refs.filter fun p => p.2.libp2p.peerId = some peerId := by
        simp [hunique]
      exact (List.mem_filter.mp hfound).1
    have htarget := (mem_refs_iff.mp hmem).2
    apply restored_of_same
    · intro ref
      simp only [rollbackMark, rollback, objects_modify, Arena.get_modify]
      by_cases hself : ref = target
      · subst hself
        rw [htarget]
        simp
      · simp [hself]
    · rfl
    · rfl
  · exact restored_of_same (fun _ => rfl) rfl rfl

theorem restored_of_no_binding (hb : m.binding peerId senderUri remoteHost = none) :
    Restored m (m.markAndRollback peerId senderUri remoteHost) := by
  cases huri : senderUri.filter fun uri => uri ≠ "" with
  | none => exact restored_of_no_sender huri
  | some uri =>
      rw [markAndRollback, mark_of_no_binding huri hb]
      exact restored_of_same (fun _ => rfl) rfl rfl

/-! ## The exits of the handler -/

/-- If the message marked a PeerID and was not handed on, the mark is rolled back. -/
def RollsBack (peerIdAttestingCaFingerprints : List String) (m : MeshManager)
    (message : InboundMessage) (now : Nat) : Prop :=
  let handled := handleMessage peerIdAttestingCaFingerprints m message now
  handled.certVerification ≠ none → handled.reply ≠ .delivered → handled.rolledBack = true

theorem rollsBack_iff (hm : m.WellFormed) (pins : List String) (message : InboundMessage)
    (now : Nat) :
    RollsBack pins m message now ↔ ∀ peerId, attestedPeerId pins message = some peerId →
      ∀ key, m.senderKey peerId message.sender message.remoteAddress now = some key →
        key ≠ "" → message.verify key ≠ .threw := by
  unfold RollsBack
  dsimp only
  cases hattested : attestedPeerId pins message with
  | none =>
      have hcert := (handleMessage_of_not_attested (m := m) now hattested).2
      refine iff_of_true ?_ ?_
      · intro hmarked
        exact absurd hcert hmarked
      · intro peerId hsome
        cases hsome
  | some peerId =>
      obtain ⟨hcert, hexit⟩ := verifyEnvelope_cases
        (m.markPeerIdVerified peerId (some message.sender) message.remoteAddress).1 message now
        (some (peerId,
          (m.markPeerIdVerified peerId (some message.sender) message.remoteAddress).2))
      rw [← handleMessage_of_attested hattested] at hcert hexit
      rw [resolve_after_mark hm hattested now] at hexit
      have hmarked : (handleMessage pins m message now).certVerification ≠ none := by
        rw [hcert]
        exact Option.some_ne_none _
      rcases hexit with ⟨-, hrolled, -, hrefused⟩ | ⟨-, hnot, key, hkey, hne, hverdict⟩
      · refine iff_of_true (fun _ _ => hrolled) ?_
        rintro peerId' hsome key hkey hne hthrew
        obtain rfl := Option.some.inj hsome
        rw [hrefused key hkey hne] at hthrew
        cases hthrew
      · rcases hverdict with ⟨hthrew, hreply⟩ | ⟨henvelope, hreply⟩
        · -- The exception ends in the `catch`, and the mark stays.
          refine iff_of_false ?_ ?_
          · intro hrolls
            have hrolled := hrolls hmarked (by rw [hreply]; exact Reply.noConfusion)
            rw [hnot] at hrolled
            cases hrolled
          · intro hall
            exact hall peerId rfl key hkey hne hthrew
        · refine iff_of_true (fun _ hreply' => absurd hreply hreply') ?_
          rintro peerId' hsome key' hkey' - hthrew
          obtain rfl := Option.some.inj hsome
          obtain rfl := Option.some.inj (hkey.symm.trans hkey')
          rw [henvelope] at hthrew
          cases hthrew

/-- A mark with its rollback leaves no trace exactly if it touches nothing that a reader
sees, and the handler runs the rollback exactly if `decodeAndVerify` does not throw. -/
theorem mark_transactional_iff (hm : m.WellFormed) :
    (∀ peerId senderUri remoteHost,
      Restored m (m.markAndRollback peerId senderUri remoteHost) ↔
        ∀ b, m.binding peerId senderUri remoteHost = some b → Undoable m peerId b) ∧
    ∀ pins message now, RollsBack pins m message now ↔
      ∀ peerId, attestedPeerId pins message = some peerId →
        ∀ key, m.senderKey peerId message.sender message.remoteAddress now = some key →
          key ≠ "" → message.verify key ≠ .threw := by
  refine ⟨?_, rollsBack_iff hm⟩
  intro peerId senderUri remoteHost
  cases hb : m.binding peerId senderUri remoteHost with
  | none =>
      refine iff_of_true (restored_of_no_binding hb) ?_
      intro b hsome
      cases hsome
  | some b =>
      rw [restored_iff_undoable hm hb]
      constructor
      · intro hundoable b' hb'
        obtain rfl := Option.some.inj hb'
        exact hundoable
      · intro hall
        exact hall b rfl

/-! ## A legacy duplicate of a canonical node -/

/-- The node under its legacy URI. -/
def legacyNode : DiscoveredPeer :=
  ⟨"node", "10.0.0.1", 9440, "spiffe://thinklocal/host/n1/agent/node", "https://10.0.0.1:9440",
    some "abc"⟩

/-- After the rollback the duplicate is offline, and a message that makes
`decodeAndVerify` throw leaves its mark. -/
theorem mark_leaves_trace :
    ∃ s, (mesh nodeOptions).Reachable s ∧
      ¬ Restored s.mesh (s.mesh.markAndRollback "abc" (some nodeUri) none) ∧
      ¬ RollsBack ["CA"] s.mesh (nodeMessage fun _ => .threw) 2 := by
  have hrun : ((mesh nodeOptions).runFrom .init
      [.addPeer legacyNode 0, .addPeer node 0,
        .updateAgentCard nodeUri ⟨nodeUri, "key", none⟩]).map (fun s =>
      (s.mesh.getPeerCounts.online,
        (s.mesh.markAndRollback "abc" (some nodeUri) none).getPeerCounts.online,
        (handleMessage ["CA"] s.mesh (nodeMessage fun _ => .threw) 2).certVerification.isSome,
        (handleMessage ["CA"] s.mesh (nodeMessage fun _ => .threw) 2).reply,
        (handleMessage ["CA"] s.mesh (nodeMessage fun _ => .threw) 2).rolledBack)) =
      some (2, 1, true, .invalidFormat, false) := by decide
  obtain ⟨s, hs, hlook⟩ := Option.map_eq_some_iff.mp hrun
  simp only [Prod.mk.injEq] at hlook
  obtain ⟨hbefore, hafter, hmarked, hreply, hrolled⟩ := hlook
  refine ⟨s, Machine.reachable_of_runFrom hs, ?_, ?_⟩
  · intro hrestored
    rw [hrestored.peerCounts, hbefore] at hafter
    cases hafter
  · intro hrolls
    have hrolled' := hrolls (Option.isSome_iff_ne_none.mp hmarked)
      (by rw [hreply]; exact Reply.noConfusion)
    rw [hrolled] at hrolled'
    cases hrolled'

/-- With the duplicate offline the same mark leaves no trace. -/
theorem mark_transactional_offline :
    ∃ m : MeshManager, m.getPeerCounts = ⟨2, 1, 1⟩ ∧
      (m.markPeerIdVerified "abc" (some nodeUri) none).1.getPeerCounts = ⟨1, 1, 0⟩ ∧
      Restored m (m.markAndRollback "abc" (some nodeUri) none) ∧
      RollsBack ["CA"] m (nodeMessage fun _ => .refused) 2 := by
  have hrun : ((mesh ⟨1, ["CA"]⟩).runFrom .init
      [.addPeer legacyNode 0, .addPeer node 0, .updateAgentCard nodeUri ⟨nodeUri, "key", none⟩,
        .tick, .checkSettles 0 false 1]).map (fun s =>
      (s.mesh.getPeerCounts,
        (s.mesh.markPeerIdVerified "abc" (some nodeUri) none).1.getPeerCounts,
        decide (∀ b ∈ s.mesh.binding "abc" (some nodeUri) none, ¬ b.Rekeys "abc" ∧
          (∀ p ∈ s.mesh.duplicates "abc" b, ∀ peer ∈ s.mesh.objects.get p.2,
            peer.status = .offline) ∧
          ∀ peer ∈ s.mesh.keptPeers "abc" b, ∀ card ∈ peer.agentCard,
            spiffeUriToPeerId card.spiffeUri ≠ none))) =
      some (⟨2, 1, 1⟩, ⟨1, 1, 0⟩, true) := by decide
  obtain ⟨s, hs, hlook⟩ := Option.map_eq_some_iff.mp hrun
  simp only [Prod.mk.injEq, decide_eq_true_eq] at hlook
  obtain ⟨hbefore, hmarked, hbinding⟩ := hlook
  have hm := Reachable.wellFormed (Machine.reachable_of_runFrom hs)
  refine ⟨s.mesh, hbefore, hmarked, ?_, ?_⟩
  · apply ((mark_transactional_iff hm).1 "abc" (some nodeUri) none).mpr
    intro b hb
    obtain ⟨hrekeys, hoffline, hcards⟩ := hbinding b hb
    -- the duplicate was offline, so nobody sees it missing
    refine ⟨hoffline, fun h => absurd h hrekeys, ?_⟩
    intro uri key huri _ hkey
    obtain ⟨peer, hpeer, hcarries⟩ := cardKey_isSome_iff.mp (Option.isSome_of_eq_some hkey)
    obtain ⟨card, hcard, hsame⟩ := (Option.any_eq_true _ _).mp (of_decide_eq_true hcarries).2
    rw [← of_decide_eq_true hsame] at huri
    exact absurd huri (hcards peer hpeer card hcard)
  · apply ((mark_transactional_iff hm).2 ["CA"] _ 2).mpr
    intro peerId _ key _ _ hthrew
    cases hthrew

end ThinkLocal.Mesh
