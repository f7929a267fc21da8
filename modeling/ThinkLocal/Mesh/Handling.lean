import ThinkLocal.Mesh.MarkEffect

/-!
# What a message does

Consequences of the effect of a mark: the lookups after it, the key under which the
handler verifies the envelope, and the states in which a message can leave the mesh.
Every reachable state is well-formed.
-/

namespace ThinkLocal.Mesh

open Foundation MeshManager

variable {m m' : MeshManager} {peerId key : String} {senderUri remoteHost : Option String}
  {ref : PeerRef} {b : Binding}

/-! ## Lookups after a mark -/

namespace MeshManager

theorem mem_moved_of_fst (hm : m.WellFormed) (hb : m.binding peerId senderUri remoteHost = some b)
    {p : String × PeerRef} (hp : p ∈ m.peers.entries)
    (hkey : p.1 ∈ (m.moved peerId b).map Prod.fst) : p ∈ m.moved peerId b := by
  obtain ⟨q, hq, heq⟩ := List.mem_map.mp hkey
  rw [← InsertionMap.eq_of_mem_entries (hm.moved_subset hb hq) hp heq]
  exact hq

section Undone

variable (h : Undone m peerId b m') (hm : m.WellFormed)
  (hb : m.binding peerId senderUri remoteHost = some b)

include h hm hb

/-- The undo restores all entries, in another order. -/
theorem Undone.mem_entries_iff (p : String × PeerRef) :
    p ∈ m'.peers.entries ↔ p ∈ m.peers.entries := by
  rw [h.entries, List.mem_append, List.mem_filter, decide_eq_true_iff]
  constructor
  · rintro (⟨hp, -⟩ | hp)
    · exact hp
    · exact hm.moved_subset hb hp
  · intro hp
    by_cases hkey : p.1 ∈ (m.moved peerId b).map Prod.fst
    · exact .inr (mem_moved_of_fst hm hb hp hkey)
    · exact .inl ⟨hp, hkey⟩

theorem Undone.get_peers (key : String) :
    m'.peers.get key = m.peers.get key :=
  InsertionMap.get_eq_of_mem_iff (h.mem_entries_iff hm hb) key

theorem Undone.wellFormed : m'.WellFormed := by
  apply hm.of_subset
  · intro key ref hkey
    rw [← h.get_peers hm hb]
    exact hkey
  · intro ref peer hpeer
    rw [h.objects, hpeer]
    refine ⟨_, rfl, ?_⟩
    split <;> rfl

end Undone

theorem Marked.get_peers (h : Marked m peerId b m') :
    m'.peers.get key = some ref ↔
      m.peers.get key = some ref ∧ key ∉ (m.moved peerId b).map Prod.fst ∨
        b.Rekeys peerId ∧ key = b.senderUri ∧ ref = b.target := by
  rw [InsertionMap.get_eq_some_iff, InsertionMap.get_eq_some_iff, h.entries, List.mem_append,
    List.mem_filter, decide_eq_true_iff]
  apply or_congr_right
  by_cases hrekeys : b.Rekeys peerId
  · simp [hrekeys]
  · simp [hrekeys]

theorem Marked.wellFormed (h : Marked m peerId b m') (hm : m.WellFormed)
    (hb : m.binding peerId senderUri remoteHost = some b) : m'.WellFormed := by
  obtain ⟨-, -, htarget, -⟩ := binding_eq_some hb
  intro key ref hkey
  rcases h.get_peers.mp hkey with ⟨hold, hkept⟩ | ⟨hrekeys, rfl, rfl⟩
  · obtain ⟨peer, hpeer, hid⟩ := hm key ref hold
    by_cases hself : ref = b.target
    · subst hself
      -- The target keeps its `agentId`: if it were moved, its old key would be gone.
      have hprior : key = b.peer.agentId := hm.key_eq hold (hm.get_target hb)
      have hrekeys : ¬ b.Rekeys peerId := by
        intro hrekeys
        apply hkept
        rw [moved, if_pos hrekeys, hprior]
        exact List.mem_singleton_self _
      refine ⟨_, h.object_target htarget, ?_⟩
      simp [markedPeer, hrekeys, bindPeerId, hprior]
    · refine ⟨_, h.object_of_ne hself hpeer, ?_⟩
      split <;> exact hid
  · refine ⟨_, h.object_target htarget, ?_⟩
    simp [markedPeer, hrekeys]

/-! ## The key of the sender -/

/-- The key of a PeerID that was learned from an authenticated connection. -/
def seenKey (m : MeshManager) (peerId uri : String) (now : Nat) : Option String :=
  (m.authenticatedSeen.get peerId).bind fun seen =>
    if seen.spiffeUri = uri ∧ now - seen.lastSeen ≤ authSeenTtlMs then some seen.publicKey
    else none

/-- The key under which the mark makes a sender known, read off the state before it. -/
def senderKey (m : MeshManager) (peerId uri : String) (remoteHost : Option String)
    (now : Nat) : Option String :=
  match m.binding peerId (some uri) remoteHost with
  | none => m.resolvePeerPublicKey uri now
  | some b =>
      match spiffeUriToPeerId uri with
      | none => m.resolvePeerPublicKey uri now
      | some _ => b.peer.publicKey.or (m.seenKey peerId uri now)

theorem resolve_of_canonical {uri : String} (huri : spiffeUriToPeerId uri = some peerId)
    (now : Nat) : m.resolvePeerPublicKey uri now =
      match m.verifiedKeys peerId with
      | [key] => some key
      | _ :: _ :: _ => none
      | [] => m.seenKey peerId uri now := by
  rw [resolvePeerPublicKey, huri]
  rfl

theorem resolve_of_legacy {uri : String} (huri : spiffeUriToPeerId uri = none) (now : Nat) :
    m.resolvePeerPublicKey uri now =
      ((m.getPeer uri).bind MeshPeer.publicKey).or (cardKey m.registered uri) := by
  rw [resolvePeerPublicKey, huri, ← map_snd_refs]

/-- Beside the target no peer of the PeerID keeps its entry. -/
theorem WellFormed.peerId_ne_of_kept (hm : m.WellFormed)
    (hb : m.binding peerId senderUri remoteHost = some b)
    (huri : spiffeUriToPeerId b.senderUri = some peerId) (hold : m.peers.get key = some ref)
    (hkept : key ∉ (m.moved peerId b).map Prod.fst) (hne : ref ≠ b.target) {peer : MeshPeer}
    (hpeer : m.objects.get ref = some peer) : peer.libp2p.peerId ≠ some peerId := by
  intro hpeerId
  have hduplicate : (key, ref) ∈ m.duplicates peerId b := by
    rw [duplicates, if_pos huri]
    exact mem_superseded_iff.mpr
      ⟨InsertionMap.get_eq_some_iff.mp hold, hne, peer, hpeer, hpeerId⟩
  have hrekeys : ¬ b.Rekeys peerId := by
    intro hrekeys
    rw [hm.duplicates_of_rekeys hb hrekeys] at hduplicate
    cases hduplicate
  apply hkept
  rw [moved, if_neg hrekeys]
  exact List.mem_map.mpr ⟨_, hduplicate, rfl⟩

/-- After a mark for its canonical URI, only the target is verified for the PeerID. -/
theorem Marked.verifiedKeys (h : Marked m peerId b m') (hm : m.WellFormed)
    (hb : m.binding peerId senderUri remoteHost = some b)
    (huri : spiffeUriToPeerId b.senderUri = some peerId) :
    m'.verifiedKeys peerId = b.peer.publicKey.toList := by
  obtain ⟨-, -, htarget, -⟩ := binding_eq_some hb
  have htarget' := h.object_target htarget
  obtain ⟨key, hkey⟩ : ∃ key, m'.peers.get key = some b.target := by
    -- the target is under its new key, or it kept its old one
    by_cases hrekeys : b.Rekeys peerId
    · exact ⟨b.senderUri, h.get_peers.mpr (.inr ⟨hrekeys, rfl, rfl⟩)⟩
    · refine ⟨b.peer.agentId, h.get_peers.mpr (.inl ⟨hm.get_target hb, ?_⟩)⟩
      rw [moved, if_neg hrekeys]
      intro hmem
      obtain ⟨p, hp, hfst⟩ := List.mem_map.mp hmem
      have hentry := InsertionMap.get_eq_some_iff.mp (hm.get_target hb)
      have hsame := InsertionMap.eq_of_mem_entries (mem_entries_of_duplicate hp) hentry hfst
      exact (mem_superseded_iff.mp (mem_duplicates hp)).2.1 (congrArg Prod.snd hsame)
  have hentry := InsertionMap.get_eq_some_iff.mp hkey
  rw [verifiedKeys_eq, InsertionMap.filterMap_entries_of_unique hentry]
  · have hpublic : (markedPeer peerId b b.peer).publicKey = b.peer.publicKey := rfl
    have hlibp2p : (markedPeer peerId b b.peer).libp2p.peerId = some peerId ∧
        (markedPeer peerId b b.peer).libp2p.peerIdVerified = true := ⟨rfl, rfl⟩
    rw [htarget', Option.bind_some]
    cases hcard : b.peer.publicKey <;> simp [verifiedFor, hpublic, hcard, hlibp2p]
  · -- all others with the PeerID were superseded
    intro q hq hne
    have hget := InsertionMap.get_eq_some_iff.mpr hq
    have hother : q.2 ≠ b.target := by
      intro heq
      rw [heq] at hget
      exact hne ((h.wellFormed hm hb).key_eq hget hkey)
    rcases h.get_peers.mp hget with ⟨hold, hkept⟩ | ⟨-, -, heq⟩
    · obtain ⟨peer, hpeer, -⟩ := hm q.1 q.2 hold
      have hpeerId := hm.peerId_ne_of_kept hb huri hold hkept hother hpeer
      rw [h.object_of_ne hother hpeer, Option.bind_some]
      split <;> simp [verifiedFor, hpeerId]
    · exact absurd heq hother

/-- A mark for another URI changes one object and no entry. -/
theorem Marked.of_not_canonical (h : Marked m peerId b m')
    (huri : spiffeUriToPeerId b.senderUri ≠ some peerId) :
    m'.peers.entries = m.peers.entries ∧ ∀ ref, m'.objects.get ref =
      (m.objects.get ref).map fun peer =>
        if ref = b.target then bindPeerId peerId peer else peer := by
  have hrekeys : ¬ b.Rekeys peerId := fun hrekeys => huri hrekeys.1
  have hnone : m.duplicates peerId b = [] := if_neg huri
  constructor
  · rw [h.entries, moved, if_neg hrekeys, if_neg hrekeys, hnone]
    simp
  · intro ref
    rw [h.objects, hnone]
    simp [markedPeer, hrekeys, bindPeerId]

/-- A mark does not change the key of a sender with a legacy URI. -/
theorem Marked.resolve_legacy (h : Marked m peerId b m')
    (huri : spiffeUriToPeerId b.senderUri = none) (now : Nat) :
    m'.resolvePeerPublicKey b.senderUri now = m.resolvePeerPublicKey b.senderUri now := by
  have hother : spiffeUriToPeerId b.senderUri ≠ some peerId := by
    rw [huri]
    exact Option.some_ne_none peerId |>.symm
  obtain ⟨hentries, hobjects⟩ := h.of_not_canonical hother
  -- the search for a legacy sender reads cards only
  have hcard : ∀ ref, (m'.objects.get ref).map (·.agentCard) =
      (m.objects.get ref).map (·.agentCard) := by
    intro ref
    rw [hobjects, Option.map_map]
    apply congrArg (fun f => Option.map f (m.objects.get ref))
    funext peer
    dsimp only [Function.comp_apply]
    split <;> rfl
  have hget : ∀ key, m'.peers.get key = m.peers.get key := by
    apply InsertionMap.get_eq_of_mem_iff
    intro p
    rw [hentries]
  have hpublic : ∀ key, (m'.getPeer key).bind MeshPeer.publicKey =
      (m.getPeer key).bind MeshPeer.publicKey := by
    intro key
    rw [getPeer, getPeer, hget]
    cases m.peers.get key with
    | none => rfl
    | some ref => rw [Option.bind_some, Option.bind_some, bind_publicKey, bind_publicKey, hcard]
  have hcards : m'.registered.map (·.agentCard) = m.registered.map (·.agentCard) := by
    rw [registered, registered, hentries, List.map_filterMap, List.map_filterMap]
    simp only [hcard]
  rw [resolve_of_legacy huri, resolve_of_legacy huri, hpublic, cardKey_congr hcards]

/-- The handler looks the sender up under the key that is read off the state before the mark. -/
theorem Marked.resolve_sender (h : Marked m peerId b m') (hm : m.WellFormed)
    (hb : m.binding peerId (some b.senderUri) remoteHost = some b)
    (huri : spiffeUriToPeerId b.senderUri = none ∨
      spiffeUriToPeerId b.senderUri = some peerId) (now : Nat) :
    m'.resolvePeerPublicKey b.senderUri now =
      m.senderKey peerId b.senderUri remoteHost now := by
  rw [senderKey, hb]
  dsimp only
  rcases huri with huri | huri
  · rw [huri, h.resolve_legacy huri]
  · have hseen : m'.seenKey peerId b.senderUri now = m.seenKey peerId b.senderUri now := by
      rw [seenKey, seenKey, h.authenticatedSeen]
    rw [resolve_of_canonical huri, h.verifiedKeys hm hb huri, huri, hseen]
    cases b.peer.publicKey <;> rfl

end MeshManager

/-! ## The handler -/

/-- The PeerID that the handler marks. -/
def attestedPeerId (peerIdAttestingCaFingerprints : List String) (message : InboundMessage) :
    Option String :=
  let canonicalCertSan := message.certSans.find? fun uri =>
    canonicalPrefix.toList <+: uri.toList
  if (authorizeHttpsSender message.sender canonicalCertSan).ok then
    attestedPeerIdFromCert message.certSans message.issuerFingerprint
      peerIdAttestingCaFingerprints
  else none

variable {pins : List String} {message : InboundMessage} {now : Nat}

/-- A certificate attests a canonical sender for its own PeerID. -/
theorem sender_of_attested (h : attestedPeerId pins message = some peerId) :
    message.sender ≠ "" ∧ (spiffeUriToPeerId message.sender = none ∨
      spiffeUriToPeerId message.sender = some peerId) := by
  unfold attestedPeerId at h
  dsimp only at h
  split at h
  case isFalse => cases h
  case isTrue hok =>
    unfold authorizeHttpsSender at hok
    cases hsender : spiffeUriToPeerId message.sender with
    | none =>
        rw [hsender] at hok
        refine ⟨?_, .inl rfl⟩
        intro hempty
        rw [hempty] at hok
        -- an empty sender has no legacy form, either
        have hlegacy : isLegacyHostUri "" = false := by decide
        simp [hlegacy] at hok
    | some wantPeerId =>
        refine ⟨?_, .inr ?_⟩
        · intro hempty
          rw [hempty, spiffeUriToPeerId_empty] at hsender
          cases hsender
        · rw [hsender] at hok
          dsimp only at hok
          split at hok
          · rename_i certPeerId hcert
            obtain ⟨san, hsan, hparse⟩ := Option.bind_eq_some_iff.mp hcert
            have hattested := attestedPeerIdFromCert_of_canonical hsan hparse h
            split at hok
            · rename_i hwant
              rw [hattested, hwant]
            · cases hok
          · cases hok

theorem handleMessage_of_attested (h : attestedPeerId pins message = some peerId) :
    handleMessage pins m message now =
      verifyEnvelope
        (m.markPeerIdVerified peerId (some message.sender) message.remoteAddress).1 message now
        (some (peerId,
          (m.markPeerIdVerified peerId (some message.sender) message.remoteAddress).2)) := by
  unfold attestedPeerId at h
  dsimp only at h
  split at h
  · rename_i hok
    unfold handleMessage
    dsimp only
    rw [if_neg (by simp [hok]), h, if_neg (by simp)]
  · cases h

/-- Without an attestation the handler leaves the mesh as it is. -/
theorem handleMessage_of_not_attested (now : Nat) (h : attestedPeerId pins message = none) :
    (handleMessage pins m message now).mesh = m ∧
      (handleMessage pins m message now).certVerification = none := by
  unfold attestedPeerId at h
  unfold handleMessage
  dsimp only at h ⊢
  split at h
  · rename_i hok
    rw [if_neg (by simp [hok]), h]
    split
    · exact ⟨rfl, rfl⟩
    · dsimp only
      unfold verifyEnvelope
      split
      · exact ⟨rfl, rfl⟩
      · split <;> exact ⟨rfl, rfl⟩
  · rename_i hok
    rw [if_pos (by simpa using hok)]
    exact ⟨rfl, rfl⟩

/-- The key that the handler finds after the mark. -/
theorem resolve_after_mark (hm : m.WellFormed) (h : attestedPeerId pins message = some peerId)
    (now : Nat) :
    (m.markPeerIdVerified peerId (some message.sender)
      message.remoteAddress).1.resolvePeerPublicKey message.sender now =
    m.senderKey peerId message.sender message.remoteAddress now := by
  obtain ⟨hne, hsender⟩ := sender_of_attested h
  cases hb : m.binding peerId (some message.sender) message.remoteAddress with
  | none =>
      have huri : ((some message.sender).filter fun uri => uri ≠ "") = some message.sender := by
        simp [hne]
      rw [mark_of_no_binding huri hb, senderKey, hb]
  | some b =>
      have huri : b.senderUri = message.sender := by
        have hfilter := (binding_eq_some hb).1
        simp only [Option.filter_eq_some_iff, Option.some.injEq] at hfilter
        exact hfilter.1.symm
      rw [← huri] at hb hsender ⊢
      exact (hm.marked hb).resolve_sender hm hb hsender now

/-- The exits of the handler after the mark: rolled back, or not. -/
theorem verifyEnvelope_cases (m : MeshManager) (message : InboundMessage) (now : Nat)
    (certVerification : Option (String × Option Undo)) :
    let handled := verifyEnvelope m message now certVerification
    handled.certVerification = certVerification ∧
      ((handled.mesh = rollbackMark m certVerification ∧ handled.rolledBack = true ∧
          handled.reply ≠ .delivered ∧
          ∀ key, m.resolvePeerPublicKey message.sender now = some key → key ≠ "" →
            message.verify key = .refused) ∨
        (handled.mesh = m ∧ handled.rolledBack = false ∧
          ∃ key, m.resolvePeerPublicKey message.sender now = some key ∧ key ≠ "" ∧
            (message.verify key = .threw ∧ handled.reply = .invalidFormat ∨
              message.verify key = .envelope ∧ handled.reply = .delivered))) := by
  dsimp only
  unfold verifyEnvelope
  cases hkey : (m.resolvePeerPublicKey message.sender now).filter fun key => key ≠ "" with
  | none =>
      refine ⟨rfl, .inl ⟨rfl, rfl, Reply.noConfusion, ?_⟩⟩
      intro key hresolve hne
      simp [hresolve, hne] at hkey
  | some key =>
      simp only [Option.filter_eq_some_iff, decide_eq_true_eq] at hkey
      obtain ⟨hresolve, hne⟩ := hkey
      dsimp only
      cases hverify : message.verify key with
      | envelope => exact ⟨rfl, .inr ⟨rfl, rfl, key, hresolve, hne, .inr ⟨hverify, rfl⟩⟩⟩
      -- an exception of the verification does not take the mark back
      | threw => exact ⟨rfl, .inr ⟨rfl, rfl, key, hresolve, hne, .inl ⟨hverify, rfl⟩⟩⟩
      | refused =>
          refine ⟨rfl, .inl ⟨rfl, rfl, Reply.noConfusion, ?_⟩⟩
          intro key' hresolve' _
          rw [← Option.some.inj (hresolve.symm.trans hresolve'), hverify]

theorem attestation_of_not_delivered {handled : Handled} (h : handled.reply ≠ .delivered) :
    MeshState.attestation handled message = [] := by
  unfold MeshState.attestation
  split
  · contradiction
  · rfl

theorem attestation_of_no_mark {handled : Handled}
    (h : ∀ peerId undo, handled.certVerification ≠ some (peerId, some undo)) :
    MeshState.attestation handled message = [] := by
  unfold MeshState.attestation
  split
  · rename_i hcert
    exact absurd hcert (h _ _)
  · rfl

/-- The mesh and the attestation after a message, in three cases: nothing was marked,
the mark was rolled back, or it stayed. -/
theorem handleMessage_cases (hm : m.WellFormed) (pins : List String) (message : InboundMessage)
    (now : Nat) :
    let handled := handleMessage pins m message now
    (handled.mesh = m ∧ MeshState.attestation handled message = []) ∨
    ∃ peerId b, attestedPeerId pins message = some peerId ∧
      m.binding peerId (some message.sender) message.remoteAddress = some b ∧
      ((Undone m peerId b handled.mesh ∧ MeshState.attestation handled message = [] ∧
          ∀ key, m.senderKey peerId message.sender message.remoteAddress now = some key →
            key ≠ "" → message.verify key = .refused) ∨
        (Marked m peerId b handled.mesh ∧
          ∃ key, m.senderKey peerId message.sender message.remoteAddress now = some key ∧
            key ≠ "" ∧
            (message.verify key = .threw ∧ MeshState.attestation handled message = [] ∨
              message.verify key = .envelope ∧ MeshState.attestation handled message =
                [⟨peerId, fun key => message.verify key = .envelope⟩]))) := by
  intro handled
  -- without the attestation of the certificate nothing is marked
  cases hattested : attestedPeerId pins message with
  | none =>
      obtain ⟨hmesh, hcert⟩ := handleMessage_of_not_attested now hattested
      refine .inl ⟨hmesh, attestation_of_no_mark ?_⟩
      intro peerId undo hsome
      cases hcert.symm.trans hsome
  | some peerId =>
      have hresolve := resolve_after_mark hm hattested now
      obtain ⟨hcert, hexit⟩ := verifyEnvelope_cases
        (m.markPeerIdVerified peerId (some message.sender) message.remoteAddress).1 message now
        (some (peerId,
          (m.markPeerIdVerified peerId (some message.sender) message.remoteAddress).2))
      rw [← handleMessage_of_attested hattested] at hcert hexit
      rw [hresolve] at hexit
      cases hb : m.binding peerId (some message.sender) message.remoteAddress with
      | none =>
          -- a message that no peer is bound to is verified against the mesh as it was
          have huri : ((some message.sender).filter fun uri => uri ≠ "") =
              some message.sender := by
            simp [(sender_of_attested hattested).1]
          rw [mark_of_no_binding huri hb] at hcert hexit
          refine .inl ⟨?_, attestation_of_no_mark ?_⟩
          · rcases hexit with ⟨hmesh, -⟩ | ⟨hmesh, -⟩ <;> exact hmesh
          · intro peerId' undo hsome
            cases hcert.symm.trans hsome
      | some b =>
          refine .inr ⟨peerId, b, rfl, hb, ?_⟩
          -- a refused signature takes the mark back, all other ends leave it
          rcases hexit with ⟨hmesh, -, hreply, hrefused⟩ | ⟨hmesh, -, key, hkey, hne, hverdict⟩
          · exact .inl ⟨hmesh ▸ hm.undone hb, attestation_of_not_delivered hreply, hrefused⟩
          · refine .inr ⟨hmesh ▸ hm.marked hb, key, hkey, hne, ?_⟩
            rcases hverdict with ⟨hthrew, hreply⟩ | ⟨henvelope, hreply⟩
            · refine .inl ⟨hthrew, attestation_of_not_delivered ?_⟩
              rw [hreply]
              exact Reply.noConfusion
            · refine .inr ⟨henvelope, ?_⟩
              rw [MeshState.attestation, hreply, hcert, mark_of_binding hb]

/-! ## Reachable states -/

theorem wellFormed_addPeer (hm : m.WellFormed) (discovered : DiscoveredPeer) (now : Nat) :
    (m.addPeer discovered now).WellFormed := by
  unfold addPeer
  cases hkey : m.peers.get discovered.agentId with
  | some ref =>
      dsimp only
      split
      · apply WellFormed.emit
        exact hm.modify fun _ => rfl
      · exact hm.modify fun _ => rfl
  | none =>
      apply WellFormed.emit
      intro key ref hget
      dsimp only at hget ⊢
      rw [InsertionMap.get_set] at hget
      split at hget
      · obtain rfl := Option.some.inj hget
        rename_i heq
        exact ⟨_, Arena.get_alloc_next _ _, heq.symm⟩
      · obtain ⟨peer, hpeer, hid⟩ := hm key ref hget
        exact ⟨peer, Arena.get_alloc_of_get hpeer, hid⟩

theorem wellFormed_recordHeartbeat (hm : m.WellFormed) (agentId : String) (now : Nat) :
    (m.recordHeartbeat agentId now).WellFormed := by
  unfold recordHeartbeat
  split
  · dsimp only
    split
    · exact hm.modify fun _ => rfl
    · apply WellFormed.emit
      exact hm.modify fun _ => rfl
  · exact hm

theorem wellFormed_handleMissedBeat (hm : m.WellFormed) (threshold : Nat) (ref : PeerRef) :
    (m.handleMissedBeat threshold ref).WellFormed := by
  unfold handleMissedBeat
  dsimp only
  split
  · apply WellFormed.emit
    apply WellFormed.modify
    · exact hm.modify fun _ => rfl
    · exact fun _ => rfl
  · exact hm.modify fun _ => rfl

theorem wellFormed_handleMessage (hm : m.WellFormed) :
    (handleMessage pins m message now).mesh.WellFormed := by
  rcases handleMessage_cases hm pins message now with
    ⟨hmesh, -⟩ | ⟨peerId, b, -, hb, ⟨hundone, -⟩ | ⟨hmarked, -⟩⟩
  · rw [hmesh]
    exact hm
  · exact hundone.wellFormed hm hb
  · exact hmarked.wellFormed hm hb

theorem wellFormed_step {opts : MeshOptions} {s s' : MeshState} {a : MeshAction}
    (hs : s.mesh.WellFormed) (h : (mesh opts).step s a = some s') : s'.mesh.WellFormed := by
  cases a with
  | addPeer discovered now =>
      obtain rfl := Option.some.inj h
      exact wellFormed_addPeer hs discovered now
  | removePeer agentId =>
      obtain rfl := Option.some.inj h
      exact hs.removePeer
  | recordHeartbeat agentId now =>
      obtain rfl := Option.some.inj h
      exact wellFormed_recordHeartbeat hs agentId now
  | updateAgentCard agentId card =>
      obtain rfl := Option.some.inj h
      dsimp only [updateAgentCard]
      split
      · exact hs.modify fun _ => rfl
      · exact hs
  | confirmPeerDiscovery agentId discovered now =>
      obtain rfl := Option.some.inj h
      dsimp only [confirmPeerDiscovery]
      split
      · exact hs.modify fun _ => rfl
      · exact hs
  | recordAuthenticatedSeen entry now =>
      obtain rfl := Option.some.inj h
      exact hs
  | message message now =>
      obtain rfl := Option.some.inj h
      exact wellFormed_handleMessage hs
  | tick =>
      unfold mesh meshStep at h
      dsimp only at h
      split at h <;> obtain rfl := Option.some.inj h <;> exact hs
  | checkSettles position ok now =>
      obtain ⟨check, -, rfl⟩ := Option.map_eq_some_iff.mp h
      cases ok with
      | true => exact wellFormed_recordHeartbeat hs check.1 now
      | false => exact wellFormed_handleMissedBeat hs opts.missedBeatsThreshold check.2

theorem Reachable.wellFormed {opts : MeshOptions} {s : MeshState}
    (hs : (mesh opts).Reachable s) : s.mesh.WellFormed :=
  Machine.Reachable.invariant (I := fun s => s.mesh.WellFormed) wellFormed_empty
    (fun _ _ _ hs h => wellFormed_step hs h) hs

/-! ## What a step does to a peer

All operations but a card and a message leave the card and the binding of a peer alone. -/

/-- A peer after an operation: its status is the one that it had or one that is known. -/
structure Touched (peer peer' : MeshPeer) : Prop where
  agentCard : peer'.agentCard = peer.agentCard
  libp2p : peer'.libp2p = peer.libp2p
  status : peer'.status = peer.status ∨ peer'.status ≠ .unknown

theorem Touched.refl (peer : MeshPeer) : Touched peer peer := ⟨rfl, rfl, .inl rfl⟩

theorem Touched.trans {peer peer' peer'' : MeshPeer} (h : Touched peer peer')
    (h' : Touched peer' peer'') : Touched peer peer'' where
  agentCard := h'.agentCard.trans h.agentCard
  libp2p := h'.libp2p.trans h.libp2p
  status := by
    rcases h'.status with hsame | hknown
    · rw [hsame]
      exact h.status
    · exact .inr hknown

/-- Every peer was there before, or it is new and not verified. -/
def Touches (m m' : MeshManager) : Prop :=
  ∀ ref peer', m'.objects.get ref = some peer' →
    (peer'.libp2p.peerIdVerified = false ∧ peer'.status ≠ .unknown) ∨
      ∃ peer, m.objects.get ref = some peer ∧ Touched peer peer'

theorem Touches.refl (m : MeshManager) : Touches m m :=
  fun _ peer hpeer => .inr ⟨peer, hpeer, .refl peer⟩

theorem Touches.modify {m' : MeshManager} (h : Touches m m') {ref : PeerRef}
    {f : MeshPeer → MeshPeer} (hf : ∀ peer, Touched peer (f peer)) :
    Touches m (m'.modify ref f) := by
  intro ref' peer'' hpeer
  obtain ⟨peer', hpeer', ⟨-, rfl⟩ | ⟨-, rfl⟩⟩ := Arena.get_modify_eq_some hpeer
  · rcases h ref' peer' hpeer' with ⟨hunverified, hknown⟩ | ⟨old, hold, htouched⟩
    · left
      rw [(hf peer').libp2p]
      refine ⟨hunverified, ?_⟩
      rcases (hf peer').status with hsame | hnew
      · rw [hsame]
        exact hknown
      · exact hnew
    · exact .inr ⟨old, hold, htouched.trans (hf peer')⟩
  · exact h ref' peer'' hpeer'

theorem Touches.emit {m' : MeshManager} (h : Touches m m') (online : Bool) (ref : PeerRef) :
    Touches m (m'.emit online ref) := by
  intro ref' peer' hpeer'
  rw [objects_emit] at hpeer'
  exact h ref' peer' hpeer'

/-- A sign of life touches the peer. -/
theorem touches_refresh (m : MeshManager) (ref : PeerRef) (now : Nat) :
    Touches m (m.modify ref fun peer =>
      { peer with lastSeen := now, missedBeats := 0, status := .online }) :=
  (Touches.refl m).modify fun _ => ⟨rfl, rfl, .inr PeerStatus.noConfusion⟩

theorem touches_addPeer (discovered : DiscoveredPeer) (now : Nat) :
    Touches m (m.addPeer discovered now) := by
  unfold addPeer
  split
  case h_1 ref _ =>
    have hrefreshed := touches_refresh m ref now
    dsimp only
    split
    · exact hrefreshed.emit true ref
    · exact hrefreshed
  case h_2 =>
    apply Touches.emit
    intro ref' peer' hpeer'
    rcases Arena.get_alloc_eq_some hpeer' with ⟨-, rfl⟩ | hold
    · exact .inl ⟨rfl, PeerStatus.noConfusion⟩
    · exact .inr ⟨peer', hold, .refl peer'⟩

theorem touches_removePeer (agentId : String) : Touches m (m.removePeer agentId) := by
  unfold removePeer
  split
  case h_1 ref _ =>
    have hoffline : Touches m ((m.modify ref MeshPeer.offline).emit false ref) := by
      apply Touches.emit
      exact (Touches.refl m).modify fun _ => ⟨rfl, rfl, .inr PeerStatus.noConfusion⟩
    exact hoffline
  case h_2 => exact Touches.refl m

theorem touches_recordHeartbeat (agentId : String) (now : Nat) :
    Touches m (m.recordHeartbeat agentId now) := by
  unfold recordHeartbeat
  split
  case h_1 ref _ =>
    have hrefreshed := touches_refresh m ref now
    dsimp only
    split
    · exact hrefreshed
    · exact hrefreshed.emit true ref
  case h_2 => exact Touches.refl m

theorem touches_confirmPeerDiscovery (agentId : String) (discovered : DiscoveredPeer)
    (now : Nat) : Touches m (m.confirmPeerDiscovery agentId discovered now) := by
  unfold confirmPeerDiscovery
  split
  · exact (Touches.refl m).modify fun _ => ⟨rfl, rfl, .inr PeerStatus.noConfusion⟩
  · exact Touches.refl m

theorem touches_handleMissedBeat (threshold : Nat) (ref : PeerRef) :
    Touches m (m.handleMissedBeat threshold ref) := by
  have hmissed : Touches m (m.modify ref fun peer =>
      { peer with missedBeats := peer.missedBeats + 1 }) :=
    (Touches.refl m).modify fun _ => ⟨rfl, rfl, .inl rfl⟩
  unfold handleMissedBeat
  dsimp only
  split
  · apply Touches.emit
    exact hmissed.modify fun _ => ⟨rfl, rfl, .inr PeerStatus.noConfusion⟩
  · exact hmissed

/-- A step takes a card or a message, or it touches the peers. -/
theorem step_cases {opts : MeshOptions} {s s' : MeshState} {a : MeshAction}
    (h : (mesh opts).step s a = some s') :
    (∃ agentId card, a = .updateAgentCard agentId card) ∨
      (∃ message now, a = .message message now) ∨
        (Touches s.mesh s'.mesh ∧ s'.attestations = s.attestations) := by
  cases a with
  | updateAgentCard agentId card => exact .inl ⟨agentId, card, rfl⟩
  | message message now => exact .inr (.inl ⟨message, now, rfl⟩)
  | addPeer discovered now =>
      obtain rfl := Option.some.inj h
      exact .inr (.inr ⟨touches_addPeer discovered now, rfl⟩)
  | removePeer agentId =>
      obtain rfl := Option.some.inj h
      exact .inr (.inr ⟨touches_removePeer agentId, rfl⟩)
  | recordHeartbeat agentId now =>
      obtain rfl := Option.some.inj h
      exact .inr (.inr ⟨touches_recordHeartbeat agentId now, rfl⟩)
  | confirmPeerDiscovery agentId discovered now =>
      obtain rfl := Option.some.inj h
      exact .inr (.inr ⟨touches_confirmPeerDiscovery agentId discovered now, rfl⟩)
  | recordAuthenticatedSeen entry now =>
      obtain rfl := Option.some.inj h
      exact .inr (.inr ⟨Touches.refl s.mesh, rfl⟩)
  | tick =>
      unfold mesh meshStep at h
      dsimp only at h
      split at h <;> obtain rfl := Option.some.inj h <;>
        exact .inr (.inr ⟨Touches.refl s.mesh, rfl⟩)
  | checkSettles position ok now =>
      obtain ⟨check, -, rfl⟩ := Option.map_eq_some_iff.mp h
      cases ok with
      | true => exact .inr (.inr ⟨touches_recordHeartbeat check.1 now, rfl⟩)
      | false => exact .inr (.inr ⟨touches_handleMissedBeat opts.missedBeatsThreshold check.2, rfl⟩)

/-! ## A canonical node

The data of the runs in the next files. -/

def nodeOptions : MeshOptions := ⟨3, ["CA"]⟩

def nodeUri : String := "spiffe://thinklocal/node/abc"

def node : DiscoveredPeer := ⟨"node", "10.0.0.1", 9440, nodeUri, "https://10.0.0.1:9440", some "abc"⟩

/-- A message of the node with a certificate of the pinned issuer. -/
def nodeMessage (verify : String → Verdict) : InboundMessage where
  sender := nodeUri
  certSans := [nodeUri]
  issuerFingerprint := some "CA"
  remoteAddress := some "10.0.0.1"
  verify := verify

end ThinkLocal.Mesh
