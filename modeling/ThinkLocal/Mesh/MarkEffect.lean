import ThinkLocal.Mesh.Entries
import ThinkLocal.Mesh.MessageHandler

/-!
# What a mark and its undo do

A mark of an attested PeerID binds a target, removes the duplicates of the PeerID and
may move the target to the sender's URI.  All of this is read off the state before it,
here as a `Binding`.  The effect of the mark, and of the mark with its undo, is then
given as the change of every object and of the list of entries.
-/

namespace ThinkLocal.Mesh

open Foundation

/-- What a mark of a PeerID is about, read off the state before it. -/
structure Binding where
  target : PeerRef
  peer : MeshPeer
  senderUri : String
  viaHost : Bool

/-- Is the target moved to the URI of the sender? -/
def Binding.Rekeys (b : Binding) (peerId : String) : Prop :=
  spiffeUriToPeerId b.senderUri = some peerId ∧ b.peer.agentId ≠ b.senderUri ∧ b.viaHost = false

instance (b : Binding) (peerId : String) : Decidable (b.Rekeys peerId) :=
  inferInstanceAs (Decidable (_ ∧ _ ∧ _))

namespace MeshManager

variable {m : MeshManager} {peerId key : String} {senderUri remoteHost : Option String}
  {ref : PeerRef} {peer : MeshPeer} {b : Binding}

/-- The binding that `markPeerIdVerified` makes for a sender, if it is `ok`. -/
def binding (m : MeshManager) (peerId : String) (senderUri remoteHost : Option String) :
    Option Binding :=
  (senderUri.filter fun uri => uri ≠ "").bind fun uri =>
    (m.markTarget peerId uri remoteHost).bind fun found =>
      (m.objects.get found.1).bind fun peer =>
        if peer.libp2p.peerId = none ∨ peer.libp2p.peerId = some peerId then
          some ⟨found.1, peer, uri, found.2⟩
        else none

/-- The entries that the mark removes. -/
def duplicates (m : MeshManager) (peerId : String) (b : Binding) : List (String × PeerRef) :=
  if spiffeUriToPeerId b.senderUri = some peerId then m.superseded peerId b.target else []

/-- The entries that do not stay where they are. -/
def moved (m : MeshManager) (peerId : String) (b : Binding) : List (String × PeerRef) :=
  if b.Rekeys peerId then [(b.peer.agentId, b.target)] else m.duplicates peerId b

/-! ## The target -/

theorem mem_byPeerId_iff :
    ref ∈ m.byPeerId peerId ↔ ref ∈ m.peers.values ∧
      ∃ peer, m.objects.get ref = some peer ∧ peer.libp2p.peerId = some peerId := by
  simp only [byPeerId, List.mem_map, List.mem_filter, decide_eq_true_eq]
  constructor
  · rintro ⟨⟨ref', peer'⟩, ⟨hmem, hpeerId⟩, rfl⟩
    obtain ⟨hvalue, hpeer⟩ := mem_refs_iff.mp hmem
    exact ⟨hvalue, peer', hpeer, hpeerId⟩
  · rintro ⟨hvalue, peer', hpeer, hpeerId⟩
    exact ⟨(ref, peer'), ⟨mem_refs_iff.mpr ⟨hvalue, hpeer⟩, hpeerId⟩, rfl⟩

theorem mem_byHost {remoteHost : String} (h : ref ∈ m.byHost peerId remoteHost) :
    ref ∈ m.peers.values := by
  obtain ⟨⟨ref', peer'⟩, hmem, rfl⟩ := List.mem_map.mp h
  exact (mem_refs_iff.mp (List.mem_filter.mp hmem).1).1

/-- How the target of a mark was found. -/
theorem markTarget_cases {uri : String} {viaHost : Bool}
    (h : m.markTarget peerId uri remoteHost = some (ref, viaHost)) :
    ref ∈ m.peers.values ∧
      (m.peers.get uri = some ref ∧ viaHost = false ∨
        m.peers.get uri = none ∧ m.byPeerId peerId = [ref] ∧ viaHost = false ∨
        m.peers.get uri = none ∧ viaHost = true) := by
  unfold markTarget at h
  cases hexact : m.peers.get uri with
  | some ref' =>
      rw [hexact] at h
      obtain ⟨rfl, rfl⟩ := Prod.mk.inj (Option.some.inj h)
      exact ⟨InsertionMap.mem_values_iff.mpr ⟨uri, hexact⟩, .inl ⟨rfl, rfl⟩⟩
  | none =>
      rw [hexact] at h
      dsimp only at h
      split at h
      · rename_i ref' hunique
        obtain ⟨rfl, rfl⟩ := Prod.mk.inj (Option.some.inj h)
        have hmem : ref' ∈ m.byPeerId peerId := by simp [hunique]
        exact ⟨(mem_byPeerId_iff.mp hmem).1, .inr (.inl ⟨rfl, hunique, rfl⟩)⟩
      · obtain ⟨host, -, hhost⟩ := Option.bind_eq_some_iff.mp h
        split at hhost
        · rename_i ref' hunique
          obtain ⟨rfl, rfl⟩ := Prod.mk.inj (Option.some.inj hhost)
          have hmem : ref' ∈ m.byHost peerId host := by simp [hunique]
          exact ⟨mem_byHost hmem, .inr (.inr ⟨rfl, rfl⟩)⟩
        · cases hhost

theorem binding_eq_some (h : m.binding peerId senderUri remoteHost = some b) :
    (senderUri.filter fun uri => uri ≠ "") = some b.senderUri ∧
      m.markTarget peerId b.senderUri remoteHost = some (b.target, b.viaHost) ∧
      m.objects.get b.target = some b.peer ∧
      (b.peer.libp2p.peerId = none ∨ b.peer.libp2p.peerId = some peerId) := by
  obtain ⟨uri, huri, h⟩ := Option.bind_eq_some_iff.mp h
  obtain ⟨found, hfound, h⟩ := Option.bind_eq_some_iff.mp h
  obtain ⟨peer, hpeer, h⟩ := Option.bind_eq_some_iff.mp h
  split at h
  · rename_i hfree
    obtain rfl := Option.some.inj h
    exact ⟨huri, hfound, hpeer, hfree⟩
  · cases h

/-- The target is registered under its `agentId`. -/
theorem WellFormed.get_target (hm : m.WellFormed)
    (h : m.binding peerId senderUri remoteHost = some b) :
    m.peers.get b.peer.agentId = some b.target := by
  obtain ⟨-, htarget, hpeer, -⟩ := binding_eq_some h
  obtain ⟨key, hkey⟩ := InsertionMap.mem_values_iff.mp (markTarget_cases htarget).1
  rw [hm.agentId_eq hkey hpeer]
  exact hkey

/-- A target that is moved is the only peer of its PeerID, and the URI is free. -/
theorem WellFormed.rekeys_spec (hm : m.WellFormed)
    (h : m.binding peerId senderUri remoteHost = some b) (hrekeys : b.Rekeys peerId) :
    m.peers.get b.senderUri = none ∧ m.byPeerId peerId = [b.target] := by
  obtain ⟨-, htarget, hpeer, -⟩ := binding_eq_some h
  obtain ⟨-, hne, hvia⟩ := hrekeys
  rcases (markTarget_cases htarget).2 with ⟨hexact, -⟩ | ⟨hfree, hunique, -⟩ | ⟨-, hhost⟩
  · exact absurd (hm.agentId_eq hexact hpeer) hne
  · exact ⟨hfree, hunique⟩
  · rw [hvia] at hhost
    cases hhost

theorem mem_superseded_iff {p : String × PeerRef} :
    p ∈ m.superseded peerId ref ↔ p ∈ m.peers.entries ∧ p.2 ≠ ref ∧
      ∃ peer, m.objects.get p.2 = some peer ∧ peer.libp2p.peerId = some peerId := by
  simp [superseded, List.mem_filter, Option.any_eq_true]

theorem mem_duplicates {p : String × PeerRef} (h : p ∈ m.duplicates peerId b) :
    p ∈ m.superseded peerId b.target := by
  unfold duplicates at h
  split at h
  · exact h
  · cases h

/-- A target that is moved has no duplicates. -/
theorem WellFormed.duplicates_of_rekeys (hm : m.WellFormed)
    (h : m.binding peerId senderUri remoteHost = some b) (hrekeys : b.Rekeys peerId) :
    m.duplicates peerId b = [] := by
  rw [List.eq_nil_iff_forall_not_mem]
  intro p hp
  obtain ⟨hmem, hne, hpeer⟩ := mem_superseded_iff.mp (mem_duplicates hp)
  have hvalue : p.2 ∈ m.peers.values := List.mem_map_of_mem hmem
  have hfound := mem_byPeerId_iff.mpr ⟨hvalue, hpeer⟩
  rw [(hm.rekeys_spec h hrekeys).2, List.mem_singleton] at hfound
  exact hne hfound

theorem mem_entries_of_duplicate {p : String × PeerRef} (h : p ∈ m.duplicates peerId b) :
    p ∈ m.peers.entries :=
  (mem_superseded_iff.mp (mem_duplicates h)).1

theorem target_notMem_duplicates : b.target ∉ (m.duplicates peerId b).map Prod.snd := by
  intro hmem
  obtain ⟨p, hp, htarget⟩ := List.mem_map.mp hmem
  exact (mem_superseded_iff.mp (mem_duplicates hp)).2.1 htarget

theorem nodup_duplicates : ((m.duplicates peerId b).map Prod.fst).Nodup := by
  have hsub : (m.duplicates peerId b).Sublist m.peers.entries := by
    unfold duplicates
    split
    · exact List.filter_sublist
    · exact List.nil_sublist _
  exact m.peers.nodup.sublist (hsub.map Prod.fst)

theorem WellFormed.moved_subset (hm : m.WellFormed)
    (h : m.binding peerId senderUri remoteHost = some b) {p : String × PeerRef}
    (hp : p ∈ m.moved peerId b) : p ∈ m.peers.entries := by
  unfold moved at hp
  split at hp
  · rw [List.mem_singleton.mp hp]
    exact InsertionMap.get_eq_some_iff.mp (hm.get_target h)
  · exact mem_entries_of_duplicate hp

/-! ## The mark -/

/-- The target after the mark. -/
def markedPeer (peerId : String) (b : Binding) (peer : MeshPeer) : MeshPeer :=
  { bindPeerId peerId peer with
    agentId := if b.Rekeys peerId then b.senderUri else peer.agentId }

/-- The state after a mark. -/
structure Marked (m : MeshManager) (peerId : String) (b : Binding) (m' : MeshManager) :
    Prop where
  objects : ∀ ref, m'.objects.get ref = (m.objects.get ref).map fun peer =>
    if ref = b.target then markedPeer peerId b peer
    else if ref ∈ (m.duplicates peerId b).map Prod.snd then peer.offline else peer
  entries : m'.peers.entries =
    (m.peers.entries.filter fun p => p.1 ∉ (m.moved peerId b).map Prod.fst) ++
      if b.Rekeys peerId then [(b.senderUri, b.target)] else []
  authenticatedSeen : m'.authenticatedSeen = m.authenticatedSeen
  events : m'.events = m.events ++ (m.duplicates peerId b).map fun p => ⟨false, p.1⟩

/-- The state after a mark and its undo. -/
structure Undone (m : MeshManager) (peerId : String) (b : Binding) (m' : MeshManager) :
    Prop where
  objects : ∀ ref, m'.objects.get ref = (m.objects.get ref).map fun peer =>
    if ref ∈ (m.duplicates peerId b).map Prod.snd then peer.offline else peer
  entries : m'.peers.entries =
    (m.peers.entries.filter fun p => p.1 ∉ (m.moved peerId b).map Prod.fst) ++
      m.moved peerId b
  authenticatedSeen : m'.authenticatedSeen = m.authenticatedSeen
  events : m'.events = m.events ++ (m.duplicates peerId b).map fun p => ⟨false, p.1⟩

theorem mark_of_binding (h : m.binding peerId senderUri remoteHost = some b) :
    m.markPeerIdVerified peerId senderUri remoteHost =
      ((m.bindTarget peerId b.senderUri b.target b.viaHost b.peer).1,
        some (m.bindTarget peerId b.senderUri b.target b.viaHost b.peer).2) := by
  obtain ⟨huri, htarget, hpeer, hfree⟩ := binding_eq_some h
  have hguard : ¬ (b.peer.libp2p.peerId ≠ none ∧ b.peer.libp2p.peerId ≠ some peerId) := by
    tauto
  rw [markPeerIdVerified, huri]
  dsimp only
  rw [htarget]
  dsimp only
  rw [hpeer]
  dsimp only
  rw [if_neg hguard]

/-- Without a binding, the mark for a sender does nothing. -/
theorem mark_of_no_binding {uri : String} (huri : (senderUri.filter fun uri => uri ≠ "") = some uri)
    (h : m.binding peerId senderUri remoteHost = none) :
    m.markPeerIdVerified peerId senderUri remoteHost = (m, none) := by
  rw [binding, huri, Option.bind_some] at h
  rw [markPeerIdVerified, huri]
  dsimp only
  cases htarget : m.markTarget peerId uri remoteHost with
  | none => rfl
  | some found =>
      obtain ⟨target, viaHost⟩ := found
      rw [htarget, Option.bind_some] at h
      dsimp only
      cases hpeer : m.objects.get target with
      | none => rfl
      | some t =>
          rw [hpeer, Option.bind_some] at h
          have hguard : t.libp2p.peerId ≠ none ∧ t.libp2p.peerId ≠ some peerId := by
            by_contra hfree
            rw [if_pos (by tauto)] at h
            cases h
          exact if_pos hguard

theorem superseded_modify (f : MeshPeer → MeshPeer) :
    (m.modify ref f).superseded peerId ref = m.superseded peerId ref := by
  apply List.filter_congr
  intro p _
  by_cases hp : p.2 = ref
  · simp [hp]
  · rw [objects_modify, Arena.get_modify, if_neg hp]

theorem bindTarget_of_not_rekeys (h : ¬ b.Rekeys peerId) :
    m.bindTarget peerId b.senderUri b.target b.viaHost b.peer =
      ((m.duplicates peerId b).foldl (fun m p => m.removePeer p.1)
          (m.modify b.target (bindPeerId peerId)),
        .binding b.target b.peer.libp2p.peerId b.peer.libp2p.peerIdVerified none
          (m.duplicates peerId b)) := by
  unfold bindTarget duplicates
  by_cases hcanonical : spiffeUriToPeerId b.senderUri = some peerId
  · dsimp only
    rw [if_pos hcanonical, if_pos hcanonical, superseded_modify, if_neg]
    exact fun hmove => h ⟨hcanonical, hmove.1, hmove.2.1⟩
  · dsimp only
    rw [if_neg hcanonical, if_neg hcanonical]
    rfl

theorem WellFormed.bindTarget_of_rekeys (hm : m.WellFormed)
    (hb : m.binding peerId senderUri remoteHost = some b) (h : b.Rekeys peerId) :
    m.bindTarget peerId b.senderUri b.target b.viaHost b.peer =
      ({ (m.modify b.target (bindPeerId peerId)).modify b.target
            fun peer => { peer with agentId := b.senderUri } with
          peers := (m.peers.delete b.peer.agentId).set b.senderUri b.target },
        .binding b.target b.peer.libp2p.peerId b.peer.libp2p.peerIdVerified
          (some (b.peer.agentId, b.senderUri)) []) := by
  have hnone : m.superseded peerId b.target = [] := by
    have hdup := hm.duplicates_of_rekeys hb h
    rwa [duplicates, if_pos h.1] at hdup
  have hfree := (hm.rekeys_spec hb h).1
  unfold bindTarget
  dsimp only
  rw [if_pos h.1, superseded_modify, hnone]
  exact if_pos ⟨h.2.1, h.2.2, .inl hfree⟩

/-- The loop of the supersession, from the bound state on. -/
theorem WellFormed.pruned_duplicates (hm : m.WellFormed) (peerId : String) (b : Binding) :
    Pruned (m.modify b.target (bindPeerId peerId)) (m.duplicates peerId b)
      ((m.duplicates peerId b).foldl (fun m p => m.removePeer p.1)
        (m.modify b.target (bindPeerId peerId))) := by
  apply pruned_foldl_removePeer
  · exact hm.modify fun _ => rfl
  · intro p hp
    rw [peers_modify]
    exact mem_entries_of_duplicate hp
  · exact nodup_duplicates

theorem WellFormed.marked (hm : m.WellFormed)
    (hb : m.binding peerId senderUri remoteHost = some b) :
    Marked m peerId b (m.markPeerIdVerified peerId senderUri remoteHost).1 := by
  rw [mark_of_binding hb]
  by_cases hrekeys : b.Rekeys peerId
  · have hnone := hm.duplicates_of_rekeys hb hrekeys
    -- the new key is free, so the target goes to the end of the map
    have hfree : (m.peers.delete b.peer.agentId).get b.senderUri = none := by
      rw [InsertionMap.get_delete, (hm.rekeys_spec hb hrekeys).1, ite_self]
    rw [hm.bindTarget_of_rekeys hb hrekeys]
    refine ⟨?_, ?_, rfl, ?_⟩
    · intro ref
      simp only [objects_modify, Arena.get_modify, hnone]
      cases m.objects.get ref with
      | none => simp
      | some peer => by_cases hself : ref = b.target <;> simp [hself, markedPeer, hrekeys]
    · rw [InsertionMap.entries_set_of_absent hfree, if_pos hrekeys, moved, if_pos hrekeys]
      simp [InsertionMap.delete]
    · simp [hnone]
  · have hpruned := hm.pruned_duplicates peerId b
    rw [bindTarget_of_not_rekeys hrekeys]
    refine ⟨?_, ?_, hpruned.authenticatedSeen, hpruned.events⟩
    · intro ref
      have htarget : b.target ∉ (m.duplicates peerId b).map Prod.snd := target_notMem_duplicates
      rw [hpruned.objects, objects_modify, Arena.get_modify]
      cases m.objects.get ref with
      | none => simp
      | some peer =>
          by_cases hself : ref = b.target
          · subst hself
            simp [htarget, markedPeer, hrekeys, bindPeerId]
          · simp [hself]
    · rw [hpruned.entries, if_neg hrekeys, moved, if_neg hrekeys, List.append_nil]
      rfl

theorem Marked.object_target {m' : MeshManager} (h : Marked m peerId b m')
    (hpeer : m.objects.get b.target = some b.peer) :
    m'.objects.get b.target = some (markedPeer peerId b b.peer) := by
  rw [h.objects, hpeer, Option.map_some, if_pos rfl]

/-- The other objects are at most set offline. -/
theorem Marked.object_of_ne {m' : MeshManager} (h : Marked m peerId b m') (hne : ref ≠ b.target)
    (hpeer : m.objects.get ref = some peer) :
    m'.objects.get ref =
      some (if ref ∈ (m.duplicates peerId b).map Prod.snd then peer.offline else peer) := by
  rw [h.objects, hpeer, Option.map_some, if_neg hne]

/-- The undo of a target that stayed under its key. -/
theorem WellFormed.undone_of_not_rekeys (hm : m.WellFormed)
    (hb : m.binding peerId senderUri remoteHost = some b) (hrekeys : ¬ b.Rekeys peerId) :
    Undone m peerId b
      ((m.bindTarget peerId b.senderUri b.target b.viaHost b.peer).1.rollback
        (m.bindTarget peerId b.senderUri b.target b.viaHost b.peer).2) := by
  have hpruned := hm.pruned_duplicates peerId b
  have htarget : b.target ∉ (m.duplicates peerId b).map Prod.snd := target_notMem_duplicates
  obtain ⟨-, -, hpeer, -⟩ := binding_eq_some hb
  rw [bindTarget_of_not_rekeys hrekeys]
  refine ⟨?_, ?_, hpruned.authenticatedSeen, hpruned.events⟩
  · intro ref
    dsimp only [rollback]
    rw [objects_modify, Arena.get_modify, hpruned.objects, objects_modify, Arena.get_modify]
    by_cases hself : ref = b.target
    · subst hself
      rw [hpeer]
      simp [htarget, bindPeerId]
    · simp [hself]
  · -- the removed duplicates come back at the end, in their order
    have habsent : ∀ p ∈ m.duplicates peerId b,
        ((m.duplicates peerId b).foldl (fun m p => m.removePeer p.1)
          (m.modify b.target (bindPeerId peerId))).peers.get p.1 = none := by
      intro p hp
      rw [InsertionMap.get_eq_none_iff, InsertionMap.keys, hpruned.entries]
      intro hmem
      obtain ⟨q, hq, heq⟩ := List.mem_map.mp hmem
      have hkept := of_decide_eq_true (List.mem_filter.mp hq).2
      exact hkept (heq ▸ List.mem_map_of_mem hp)
    dsimp only [rollback]
    rw [peers_modify, InsertionMap.entries_foldl_set nodup_duplicates habsent, hpruned.entries,
      moved, if_neg hrekeys]
    rfl

/-- The undo of a target that was moved puts it to the end. -/
theorem WellFormed.undone_of_rekeys (hm : m.WellFormed)
    (hb : m.binding peerId senderUri remoteHost = some b) (hrekeys : b.Rekeys peerId) :
    Undone m peerId b
      ((m.bindTarget peerId b.senderUri b.target b.viaHost b.peer).1.rollback
        (m.bindTarget peerId b.senderUri b.target b.viaHost b.peer).2) := by
  have hnone := hm.duplicates_of_rekeys hb hrekeys
  have hfree := (hm.rekeys_spec hb hrekeys).1
  obtain ⟨-, -, hpeer, -⟩ := binding_eq_some hb
  have hdeleted : (m.peers.delete b.peer.agentId).get b.senderUri = none := by
    rw [InsertionMap.get_delete, hfree, ite_self]
  have hentries : (((m.peers.delete b.peer.agentId).set b.senderUri b.target).delete
      b.senderUri).entries = (m.peers.delete b.peer.agentId).entries :=
    InsertionMap.entries_delete_set_of_absent hdeleted
  rw [hm.bindTarget_of_rekeys hb hrekeys]
  refine ⟨?_, ?_, rfl, ?_⟩
  · intro ref
    simp only [rollback, objects_modify, Arena.get_modify, hnone]
    by_cases hself : ref = b.target
    · subst hself
      rw [hpeer]
      simp [bindPeerId]
    · simp [hself]
  · -- its old key is free again, and the target is put behind all others
    have hprior : (((m.peers.delete b.peer.agentId).set b.senderUri b.target).delete
        b.senderUri).get b.peer.agentId = none := by
      rw [InsertionMap.get_delete, InsertionMap.get_set, InsertionMap.get_delete_self]
      simp [hrekeys.2.1]
    refine (InsertionMap.entries_set_of_absent hprior).trans ?_
    rw [hentries, moved, if_pos hrekeys]
    simp [InsertionMap.delete]
  · simp [hnone, rollback]

theorem WellFormed.undone (hm : m.WellFormed)
    (hb : m.binding peerId senderUri remoteHost = some b) :
    Undone m peerId b (rollbackMark (m.markPeerIdVerified peerId senderUri remoteHost).1
      (some (peerId, (m.markPeerIdVerified peerId senderUri remoteHost).2))) := by
  rw [mark_of_binding hb]
  by_cases hrekeys : b.Rekeys peerId
  · exact hm.undone_of_rekeys hb hrekeys
  · exact hm.undone_of_not_rekeys hb hrekeys

end MeshManager

end ThinkLocal.Mesh
