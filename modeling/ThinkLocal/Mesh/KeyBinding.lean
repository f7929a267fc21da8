import ThinkLocal.Mesh.Handling

/-!
# Keys of canonical identities

A key that resolves for a canonical URI through a verified entry is to be attested: an
accepted message marked the PeerID, and its envelope is valid under the key.  The
handler checks the key of the target when it marks it, but a verified flag outlives the
card it was checked with: `updateAgentCard` resets it only if the card names another
PeerID.  Also a message that makes `decodeAndVerify` throw leaves its mark behind, and
a sender with a legacy URI may be checked under another key than that of the target.
-/

namespace ThinkLocal.Mesh

open Foundation MeshManager

variable {opts : MeshOptions} {s s' : MeshState} {m m' m'' : MeshManager} {ref : PeerRef}
  {peer : MeshPeer} {peerId key : String}

/-! ## The invariant -/

/-- What the peer is verified for is attested with the key of its card. -/
def KeyAttested (s : MeshState) (peer : MeshPeer) : Prop :=
  ∀ peerId key, peer.libp2p.peerIdVerified = true → peer.libp2p.peerId = some peerId →
    peer.publicKey = some key → s.Attested peerId key

def KeysAttested (s : MeshState) : Prop :=
  ∀ ref peer, s.mesh.objects.get ref = some peer → KeyAttested s peer

/-- The step lets no key speak for a PeerID that is not attested for it: a new card of
a verified entry, and the card of a target that stays marked. -/
def BindsAttestedKeys (opts : MeshOptions) (s : MeshState) : MeshAction → Prop
  | .updateAgentCard agentId card =>
      ∀ peer ∈ s.mesh.getPeer agentId, peer.libp2p.peerIdVerified = true →
        card.libp2p.bind (·.peer_id) = none ∨
            card.libp2p.bind (·.peer_id) = peer.libp2p.peerId →
        card.publicKey ≠ "" →
        ∀ peerId ∈ peer.libp2p.peerId, s.Attested peerId card.publicKey
  | .message message now =>
      ∀ peerId ∈ attestedPeerId opts.peerIdAttestingCaFingerprints message,
        ∀ b ∈ s.mesh.binding peerId (some message.sender) message.remoteAddress,
          ∀ key ∈ b.peer.publicKey, s.Attested peerId key ∨
            ∀ senderKey ∈ s.mesh.senderKey peerId message.sender message.remoteAddress now,
              senderKey = "" ∨ message.verify senderKey = .refused ∨
                message.verify senderKey = .envelope ∧ message.verify key = .envelope
  | _ => True

instance (opts : MeshOptions) (s : MeshState) :
    (a : MeshAction) → Decidable (BindsAttestedKeys opts s a)
  | .updateAgentCard agentId card =>
      inferInstanceAs (Decidable (∀ peer ∈ s.mesh.getPeer agentId, _ → _ → _ →
        ∀ peerId ∈ peer.libp2p.peerId, s.Attested peerId card.publicKey))
  | .message message now =>
      inferInstanceAs (Decidable (∀ peerId ∈ attestedPeerId _ message,
        ∀ b ∈ s.mesh.binding peerId _ _, ∀ key ∈ b.peer.publicKey, _ ∨
          ∀ senderKey ∈ s.mesh.senderKey peerId _ _ now, _ ∨ _ ∨ _ ∧ _))
  | .addPeer .. | .removePeer .. | .recordHeartbeat .. | .confirmPeerDiscovery ..
  | .recordAuthenticatedSeen .. | .tick | .checkSettles .. => .isTrue trivial

/-! ## Steps that keep cards and bindings -/

/-- Every peer has the card and the binding that it had before, or it is not verified. -/
def Keeps (m m' : MeshManager) : Prop :=
  ∀ ref peer', m'.objects.get ref = some peer' → peer'.libp2p.peerIdVerified = false ∨
    ∃ peer, m.objects.get ref = some peer ∧ peer'.agentCard = peer.agentCard ∧
      peer'.libp2p = peer.libp2p

theorem Keeps.refl (m : MeshManager) : Keeps m m :=
  fun _ peer hpeer => .inr ⟨peer, hpeer, rfl, rfl⟩

theorem Touches.keeps (h : Touches m m') : Keeps m m' := by
  intro ref peer' hpeer'
  rcases h ref peer' hpeer' with ⟨hunverified, -⟩ | ⟨peer, hpeer, htouched⟩
  · exact .inl hunverified
  · exact .inr ⟨peer, hpeer, htouched.agentCard, htouched.libp2p⟩

theorem MeshManager.Undone.keeps {b : Binding} (h : Undone m peerId b m') : Keeps m m' := by
  intro ref peer' hpeer'
  rw [h.objects] at hpeer'
  obtain ⟨peer, hpeer, rfl⟩ := Option.map_eq_some_iff.mp hpeer'
  refine .inr ⟨peer, hpeer, ?_⟩
  split <;> exact ⟨rfl, rfl⟩

/-! ## The invariant along a run -/

theorem KeyAttested.of_same {peer' : MeshPeer} (h : KeyAttested s peer)
    (hcard : peer'.agentCard = peer.agentCard) (hlibp2p : peer'.libp2p = peer.libp2p) :
    KeyAttested s peer' := by
  have hpublic : peer'.publicKey = peer.publicKey := by
    rw [MeshPeer.publicKey, hcard, MeshPeer.publicKey]
  intro peerId key hverified hpeerId hkey
  rw [hlibp2p] at hverified hpeerId
  exact h peerId key hverified hpeerId (hpublic ▸ hkey)

/-- Attestations stay. -/
theorem KeyAttested.mono (h : KeyAttested s peer) (hsub : s.attestations ⊆ s'.attestations) :
    KeyAttested s' peer := by
  intro peerId key hverified hpeerId hkey
  obtain ⟨a, ha, hpair⟩ := h peerId key hverified hpeerId hkey
  exact ⟨a, hsub ha, hpair⟩

theorem KeysAttested.of_keeps (h : KeysAttested s) (hkeeps : Keeps s.mesh s'.mesh)
    (hsub : s.attestations ⊆ s'.attestations) : KeysAttested s' := by
  intro ref peer' hpeer'
  rcases hkeeps ref peer' hpeer' with hunverified | ⟨peer, hpeer, hcard, hlibp2p⟩
  · intro peerId key hverified
    rw [hunverified] at hverified
    cases hverified
  · exact ((h ref peer hpeer).of_same hcard hlibp2p).mono hsub

/-- The flag survives a card only if the card names no other PeerID. -/
theorem updatedLibp2p_of_verified {libp2p : PeerLibp2p} {card : Option CardLibp2p}
    (h : (updatedLibp2p libp2p card).peerIdVerified = true) :
    libp2p.peerIdVerified = true ∧ (updatedLibp2p libp2p card).peerId = libp2p.peerId ∧
      (card.bind (·.peer_id) = none ∨ card.bind (·.peer_id) = libp2p.peerId) := by
  unfold updatedLibp2p at h ⊢
  dsimp only at h ⊢
  split at h
  · cases h
  · rename_i hsame
    rw [not_not] at hsame
    refine ⟨h, hsame, ?_⟩
    cases hnew : card.bind (·.peer_id) with
    | none => exact .inl rfl
    | some newPeerId =>
        rw [hnew, Option.some_or] at hsame
        exact .inr hsame

theorem KeysAttested.updateAgentCard (h : KeysAttested s) {agentId : String} {card : AgentCard}
    (hbinds : BindsAttestedKeys opts s (.updateAgentCard agentId card)) :
    KeysAttested { s with mesh := s.mesh.updateAgentCard agentId card } := by
  intro ref peer' hpeer'
  dsimp only at hpeer'
  unfold MeshManager.updateAgentCard at hpeer'
  split at hpeer'
  case h_2 => exact h ref peer' hpeer'
  case h_1 target htarget =>
    obtain ⟨peer, hpeer, hchanged⟩ := Arena.get_modify_eq_some hpeer'
    rcases hchanged with ⟨rfl, rfl⟩ | ⟨-, rfl⟩
    · intro peerId key hverified hpeerId hkey
      obtain ⟨hflag, hsame, hcard⟩ := updatedLibp2p_of_verified hverified
      have hget : peer ∈ s.mesh.getPeer agentId := by
        rw [Option.mem_def, getPeer, htarget, Option.bind_some, hpeer]
      have hpublic := hkey
      simp only [MeshPeer.publicKey, Option.map_some, Option.filter_eq_some_iff,
        Option.some.injEq, decide_eq_true_eq] at hpublic
      obtain ⟨rfl, hne⟩ := hpublic
      exact hbinds peer hget hflag hcard hne peerId (hsame.symm.trans hpeerId)
    · exact h ref peer' hpeer

theorem KeysAttested.message (hm : s.mesh.WellFormed) (h : KeysAttested s)
    {message : InboundMessage} {now : Nat}
    (hbinds : BindsAttestedKeys opts s (.message message now))
    (hstep : (mesh opts).step s (.message message now) = some s') : KeysAttested s' := by
  have hs' := Option.some.inj hstep
  have hmesh : s'.mesh = (handleMessage opts.peerIdAttestingCaFingerprints s.mesh message
      now).mesh := by rw [← hs']
  have hattestations : s'.attestations = s.attestations ++ MeshState.attestation
      (handleMessage opts.peerIdAttestingCaFingerprints s.mesh message now) message := by
    rw [← hs']
  have hsub : s.attestations ⊆ s'.attestations := by
    rw [hattestations]
    exact List.subset_append_left _ _
  rcases handleMessage_cases hm opts.peerIdAttestingCaFingerprints message now with
    ⟨hsame, -⟩ | ⟨peerId, b, hattested, hb, ⟨hundone, -⟩ | ⟨hmarked, senderKey, hkey, hne, hout⟩⟩
  · apply h.of_keeps _ hsub
    rw [hmesh, hsame]
    exact Keeps.refl _
  · apply h.of_keeps _ hsub
    rw [hmesh]
    exact hundone.keeps
  · intro ref peer' hpeer'
    rw [hmesh, hmarked.objects] at hpeer'
    obtain ⟨peer, hpeer, rfl⟩ := Option.map_eq_some_iff.mp hpeer'
    obtain ⟨-, -, htarget, -⟩ := binding_eq_some hb
    by_cases hself : ref = b.target
    · subst hself
      obtain rfl := Option.some.inj (hpeer.symm.trans htarget)
      rw [if_pos rfl]
      intro peerId' key hverified hpeerId' hkey'
      obtain rfl : peerId = peerId' := Option.some.inj hpeerId'
      rcases hbinds peerId hattested _ hb key hkey' with hold | hvalid
      · obtain ⟨a, ha, hpair⟩ := hold
        exact ⟨a, hsub ha, hpair⟩
      · rcases hvalid senderKey hkey with hempty | hrefused | ⟨henvelope, hvalid⟩
        · exact absurd hempty hne
        · rw [hrefused] at hout
          simp at hout
        · -- The message is accepted, so it attests the key of the target.
          rw [henvelope] at hout
          rcases hout with ⟨hthrew, -⟩ | ⟨-, hmade⟩
          · cases hthrew
          · refine ⟨⟨peerId, fun key => message.verify key = .envelope⟩, ?_, rfl, ?_⟩
            · rw [hattestations, hmade]
              simp
            · exact decide_eq_true hvalid
    · rw [if_neg hself]
      have hold := (h ref peer hpeer).mono hsub
      split
      · exact hold.of_same rfl rfl
      · exact hold

theorem keysAttested_step (hm : s.mesh.WellFormed) (h : KeysAttested s) {a : MeshAction}
    (hbinds : BindsAttestedKeys opts s a) (hstep : (mesh opts).step s a = some s') :
    KeysAttested s' := by
  rcases step_cases hstep with ⟨agentId, card, rfl⟩ | ⟨message, now, rfl⟩ | ⟨htouches, hsame⟩
  · obtain rfl := Option.some.inj hstep
    exact h.updateAgentCard hbinds
  · exact h.message hm hbinds hstep
  · refine h.of_keeps htouches.keeps ?_
    rw [hsame]
    exact List.Subset.refl _

theorem keysAttested_of_reachable
    (hs : (mesh opts).ReachableUnder (BindsAttestedKeys opts) s) : KeysAttested s := by
  refine Machine.ReachableUnder.invariant_with (fun _ hs => Reachable.wellFormed hs) ?_ ?_ hs
  · intro ref peer hpeer
    cases hpeer
  · intro s a s' hm h hbinds hstep
    exact keysAttested_step hm h hbinds hstep

/-! ## Resolved keys -/

theorem mem_verifiedKeys (hkey : key ∈ m.verifiedKeys peerId) :
    ∃ ref peer, m.objects.get ref = some peer ∧ peer.libp2p.peerIdVerified = true ∧
      peer.libp2p.peerId = some peerId ∧ peer.publicKey = some key := by
  rw [verifiedKeys_eq] at hkey
  obtain ⟨p, -, hp⟩ := List.mem_filterMap.mp hkey
  obtain ⟨peer, hpeer, hp⟩ := Option.bind_eq_some_iff.mp hp
  split at hp
  · rename_i hverified
    simp only [verifiedFor, Bool.and_eq_true, decide_eq_true_eq] at hverified
    exact ⟨p.2, peer, hpeer, hverified.1.2, hverified.2, hp⟩
  · cases hp

/-- In every run whose steps bind attested keys only, a key that resolves for a canonical
URI through a verified entry is attested for its PeerID. -/
theorem resolved_key_attested (hs : (mesh opts).ReachableUnder (BindsAttestedKeys opts) s)
    {uri : String} {now : Nat} (huri : spiffeUriToPeerId uri = some peerId)
    (hentry : s.mesh.verifiedKeys peerId ≠ [])
    (hkey : s.mesh.resolvePeerPublicKey uri now = some key) : s.Attested peerId key := by
  have hmem : key ∈ s.mesh.verifiedKeys peerId := by
    rw [resolve_of_canonical huri] at hkey
    split at hkey
    · rename_i hone
      rw [hone, Option.some.inj hkey]
      exact List.mem_singleton_self key
    · cases hkey
    · rename_i hnone
      exact absurd hnone hentry
  obtain ⟨ref, peer, hpeer, hverified, hpeerId, hpublic⟩ := mem_verifiedKeys hmem
  exact keysAttested_of_reachable hs ref peer hpeer peerId key hverified hpeerId hpublic

/-! ## A canonical peer whose card is replaced -/

/-- The node is found, its card fetched, and a message of it accepted. -/
def attestNode : List MeshAction :=
  [.addPeer node 0, .updateAgentCard nodeUri ⟨nodeUri, "key", none⟩,
    .message (nodeMessage fun key => if key = "key" then .envelope else .refused) 1]

theorem resolved_key_attested_node :
    ∃ s, (mesh nodeOptions).Reachable s ∧
      s.mesh.resolvePeerPublicKey nodeUri 2 = some "key" ∧ s.Attested "abc" "key" := by
  have hrun : ((mesh nodeOptions).runFrom .init attestNode).map (fun s =>
      (s.mesh.verifiedKeys "abc", s.mesh.resolvePeerPublicKey nodeUri 2)) =
      some (["key"], some "key") := by decide
  obtain ⟨s, hs, hlook⟩ := Option.map_eq_some_iff.mp hrun
  obtain ⟨hentry, hkey⟩ := Prod.mk.inj hlook
  have hreach : (mesh nodeOptions).ReachableUnder (BindsAttestedKeys nodeOptions) s :=
    Machine.ReachableUnder.init.runFrom (by decide) hs
  have huri : spiffeUriToPeerId nodeUri = some "abc" := by decide
  exact ⟨s, hreach.reachable, hkey,
    resolved_key_attested hreach huri (by rw [hentry]; exact List.cons_ne_nil _ _) hkey⟩

/-- The next card of the node carries another key, and this key speaks for the PeerID. -/
theorem resolved_key_replaced :
    ∃ s, (mesh nodeOptions).Reachable s ∧ s.mesh.verifiedKeys "abc" = ["other"] ∧
      s.mesh.resolvePeerPublicKey (peerIdToSpiffeUri "abc") 2 = some "other" ∧
      ¬ s.Attested "abc" "other" := by
  have hrun : ((mesh nodeOptions).runFrom .init
      (attestNode ++ [.updateAgentCard nodeUri ⟨nodeUri, "other", none⟩])).map (fun s =>
        (s.mesh.verifiedKeys "abc", s.mesh.resolvePeerPublicKey (peerIdToSpiffeUri "abc") 2,
          decide (s.Attested "abc" "other"))) = some (["other"], some "other", false) := by
    decide
  obtain ⟨s, hs, hlook⟩ := Option.map_eq_some_iff.mp hrun
  simp only [Prod.mk.injEq, decide_eq_false_iff_not] at hlook
  exact ⟨s, Machine.reachable_of_runFrom hs, hlook⟩

end ThinkLocal.Mesh
