import ThinkLocal.Foundation.Machine
import ThinkLocal.Mesh.Entries

/-!
# Approval and authenticated senders

`recordAuthenticatedSeen` lets the node verify the signature of a sender that it
has only met over an authenticated connection.  The approval of a sender must not
depend on it.  The runs of this file are the runs of the calls of a `MeshManager`,
in any order and with any arguments: the caller of `markPeerIdVerified` keeps the
result and may call its `rollback` at any later time, and a health check may settle
for any peer object.
-/

namespace ThinkLocal.Mesh

open Foundation MeshManager

/-! ## The calls -/

inductive MeshCall
  | addPeer (discovered : DiscoveredPeer) (now : Nat)
  | removePeer (agentId : String)
  | recordHeartbeat (agentId : String) (now : Nat)
  | handleMissedBeat (ref : PeerRef)
  | updateAgentCard (agentId : String) (card : AgentCard)
  | confirmPeerDiscovery (agentId : String) (discovered : DiscoveredPeer) (now : Nat)
  | recordAuthenticatedSeen (entry : AuthenticatedSeenEntry) (now : Nat)
  | markPeerIdVerified (peerId : String) (senderUri remoteHost : Option String)
  /-- The `rollback` of the result with the given number. -/
  | rollback (result : Nat)

/-- Is the call a call of `recordAuthenticatedSeen`? -/
def MeshCall.records : MeshCall → Bool
  | .recordAuthenticatedSeen _ _ => true
  | _ => false

/-- A manager with the results of its calls of `markPeerIdVerified`. -/
structure CalledMesh where
  mesh : MeshManager
  results : List (Option Undo)

def applyCall (missedBeatsThreshold : Nat) (s : CalledMesh) : MeshCall → CalledMesh
  | .addPeer discovered now => { s with mesh := s.mesh.addPeer discovered now }
  | .removePeer agentId => { s with mesh := s.mesh.removePeer agentId }
  | .recordHeartbeat agentId now => { s with mesh := s.mesh.recordHeartbeat agentId now }
  | .handleMissedBeat ref => { s with mesh := s.mesh.handleMissedBeat missedBeatsThreshold ref }
  | .updateAgentCard agentId card => { s with mesh := s.mesh.updateAgentCard agentId card }
  | .confirmPeerDiscovery agentId discovered now =>
      { s with mesh := s.mesh.confirmPeerDiscovery agentId discovered now }
  | .recordAuthenticatedSeen entry now =>
      { s with mesh := s.mesh.recordAuthenticatedSeen entry now }
  | .markPeerIdVerified peerId senderUri remoteHost =>
      let marked := s.mesh.markPeerIdVerified peerId senderUri remoteHost
      ⟨marked.1, s.results ++ [marked.2]⟩
  | .rollback result =>
      match s.results[result]?.join with
      | some undo => { s with mesh := s.mesh.rollback undo }
      | none => s

def runCalls (missedBeatsThreshold : Nat) (calls : List MeshCall) : CalledMesh :=
  calls.foldl (applyCall missedBeatsThreshold) ⟨.empty, []⟩

/-! ## What the calls do not look at -/

namespace MeshManager

variable {m : MeshManager} {ref : PeerRef}
  (seen : InsertionMap String AuthenticatedSeenEntry)

/-- The manager with other senders known from authenticated connections. -/
def withSeen (m : MeshManager) (seen : InsertionMap String AuthenticatedSeenEntry) :
    MeshManager :=
  { m with authenticatedSeen := seen }

@[simp] theorem peers_withSeen : (m.withSeen seen).peers = m.peers := rfl

@[simp] theorem objects_withSeen : (m.withSeen seen).objects = m.objects := rfl

theorem withSeen_modify (f : MeshPeer → MeshPeer) :
    (m.modify ref f).withSeen seen = (m.withSeen seen).modify ref f := rfl

theorem withSeen_emit (online : Bool) :
    (m.emit online ref).withSeen seen = (m.withSeen seen).emit online ref := by
  unfold emit withSeen
  cases m.objects.get ref <;> rfl

theorem withSeen_addPeer (discovered : DiscoveredPeer) (now : Nat) :
    (m.addPeer discovered now).withSeen seen = (m.withSeen seen).addPeer discovered now := by
  unfold addPeer
  rw [peers_withSeen, objects_withSeen]
  cases m.peers.get discovered.agentId with
  | none => exact withSeen_emit seen true
  | some ref =>
      dsimp only
      rw [apply_ite (withSeen · seen), withSeen_emit, withSeen_modify]

theorem withSeen_removePeer (agentId : String) :
    (m.removePeer agentId).withSeen seen = (m.withSeen seen).removePeer agentId := by
  unfold removePeer
  rw [peers_withSeen]
  cases m.peers.get agentId with
  | none => rfl
  | some ref =>
      dsimp only
      rw [← withSeen_modify, ← withSeen_emit]
      rfl

theorem withSeen_recordHeartbeat (agentId : String) (now : Nat) :
    (m.recordHeartbeat agentId now).withSeen seen = (m.withSeen seen).recordHeartbeat agentId now := by
  unfold recordHeartbeat
  rw [peers_withSeen, objects_withSeen]
  cases m.peers.get agentId with
  | none => rfl
  | some ref =>
      dsimp only
      rw [apply_ite (withSeen · seen), withSeen_emit, withSeen_modify]

theorem withSeen_handleMissedBeat (missedBeatsThreshold : Nat) :
    (m.handleMissedBeat missedBeatsThreshold ref).withSeen seen =
      (m.withSeen seen).handleMissedBeat missedBeatsThreshold ref := by
  unfold handleMissedBeat
  dsimp only
  rw [← withSeen_modify, objects_withSeen, ← withSeen_modify, ← withSeen_emit,
    apply_ite (withSeen · seen)]

theorem withSeen_updateAgentCard (agentId : String) (card : AgentCard) :
    (m.updateAgentCard agentId card).withSeen seen = (m.withSeen seen).updateAgentCard agentId card := by
  unfold updateAgentCard
  rw [peers_withSeen]
  cases m.peers.get agentId <;> rfl

theorem withSeen_confirmPeerDiscovery (agentId : String) (discovered : DiscoveredPeer)
    (now : Nat) :
    (m.confirmPeerDiscovery agentId discovered now).withSeen seen =
      (m.withSeen seen).confirmPeerDiscovery agentId discovered now := by
  unfold confirmPeerDiscovery
  rw [peers_withSeen]
  cases m.peers.get agentId <;> rfl

theorem withSeen_foldl_removePeer (removed : List (String × PeerRef)) :
    (removed.foldl (fun m p => m.removePeer p.1) m).withSeen seen =
      removed.foldl (fun m p => m.removePeer p.1) (m.withSeen seen) := by
  induction removed generalizing m with
  | nil => rfl
  | cons p removed ih => rw [List.foldl_cons, List.foldl_cons, ih, withSeen_removePeer]

theorem withSeen_bindTarget (peerId senderUri : String) (viaRemoteHost : Bool) (t : MeshPeer) :
    ((m.withSeen seen).bindTarget peerId senderUri ref viaRemoteHost t) =
      ((m.bindTarget peerId senderUri ref viaRemoteHost t).1.withSeen seen,
        (m.bindTarget peerId senderUri ref viaRemoteHost t).2) := by
  have hsuperseded : ((m.withSeen seen).modify ref (bindPeerId peerId)).superseded peerId ref =
      (m.modify ref (bindPeerId peerId)).superseded peerId ref := rfl
  unfold bindTarget
  dsimp only
  rw [hsuperseded, ← withSeen_modify, ← withSeen_foldl_removePeer, peers_withSeen]
  -- The three exits: moved to the sender's URI, only superseded, and only bound.
  split
  · split <;> rfl
  · rfl

theorem withSeen_markPeerIdVerified (peerId : String) (senderUri remoteHost : Option String) :
    (m.withSeen seen).markPeerIdVerified peerId senderUri remoteHost =
      ((m.markPeerIdVerified peerId senderUri remoteHost).1.withSeen seen,
        (m.markPeerIdVerified peerId senderUri remoteHost).2) := by
  have htarget : ∀ uri, (m.withSeen seen).markTarget peerId uri remoteHost =
      m.markTarget peerId uri remoteHost := fun _ => rfl
  have hrefs : (m.withSeen seen).refs = m.refs := rfl
  unfold markPeerIdVerified
  rw [hrefs]
  cases senderUri.filter fun uri => uri ≠ "" with
  | some uri =>
      dsimp only
      rw [htarget]
      cases m.markTarget peerId uri remoteHost with
      | none => rfl
      | some found =>
          dsimp only
          rw [objects_withSeen]
          cases m.objects.get found.1 with
          | none => rfl
          | some t =>
              dsimp only
              rw [withSeen_bindTarget]
              split <;> rfl
  | none =>
      dsimp only
      split <;> rfl

theorem withSeen_rollback (undo : Undo) :
    (m.rollback undo).withSeen seen = (m.withSeen seen).rollback undo := by
  cases undo with
  | flag target verified => rfl
  | binding target peerId verified rekeyed removed => cases rekeyed <;> rfl

/-! ## The approval -/

/-- Every peer that counts for a PeerID has a key. -/
theorem length_verifiedKeys (peerId : String) :
    (m.verifiedKeys peerId).length =
      ((m.refs.map Prod.snd).filter (verifiedFor peerId)).length := by
  unfold verifiedKeys
  induction m.refs.map Prod.snd with
  | nil => rfl
  | cons peer peers ih =>
      by_cases h : verifiedFor peerId peer = true
      · have hkey : peer.publicKey.isSome = true := by
          simp only [verifiedFor, Bool.and_eq_true] at h
          exact h.1.1
        obtain ⟨key, hkey⟩ := Option.isSome_iff_exists.mp hkey
        simp [h, hkey, ih]
      · simp [h, ih]

/-- A sender is approved if and only if its key is known without the authenticated
connections. -/
theorem isApprovedPeerSender_iff (senderUri : String) (now : Nat) :
    m.isApprovedPeerSender senderUri = true ↔
      ((m.withSeen .empty).resolvePeerPublicKey senderUri now).isSome = true := by
  have hkeys : ∀ peerId, (m.withSeen .empty).verifiedKeys peerId = m.verifiedKeys peerId :=
    fun _ => rfl
  have hrefs : (m.withSeen .empty).refs = m.refs := rfl
  have hpeer : (m.withSeen .empty).getPeer senderUri = m.getPeer senderUri := rfl
  unfold isApprovedPeerSender resolvePeerPublicKey
  cases spiffeUriToPeerId senderUri with
  | none =>
      dsimp only
      rw [hrefs, hpeer, Option.isSome_or]
  | some peerId =>
      dsimp only
      rw [hkeys, ← length_verifiedKeys, decide_eq_true_iff]
      -- With no key only the empty map of authenticated senders is left to ask.
      rcases m.verifiedKeys peerId with - | ⟨key, - | ⟨key', keys⟩⟩ <;> simp [withSeen]

/-- Two verified entries of a PeerID: no key is returned, whatever was recorded. -/
theorem resolve_of_ambiguous {senderUri peerId : String} (now : Nat)
    (huri : spiffeUriToPeerId senderUri = some peerId)
    (h : 2 ≤ (m.verifiedKeys peerId).length) : m.resolvePeerPublicKey senderUri now = none := by
  rw [resolvePeerPublicKey, huri]
  dsimp only
  rcases hkeys : m.verifiedKeys peerId with - | ⟨key, - | ⟨key', keys⟩⟩
  · simp [hkeys] at h
  · simp [hkeys] at h
  · rfl

/-! ## The bound -/

theorem mem_keys_of_oldestKey {entries : List (String × AuthenticatedSeenEntry)} {key : String}
    {t : Nat} (h : oldestKey entries = some (key, t)) : key ∈ entries.map Prod.fst := by
  induction entries generalizing key t with
  | nil => cases h
  | cons p rest ih =>
      rw [oldestKey] at h
      rw [List.map_cons]
      cases hrest : oldestKey rest with
      | none =>
          rw [hrest] at h
          cases h
          exact List.mem_cons_self
      | some q =>
          rw [hrest] at h
          dsimp only at h
          split at h
          · cases h
            exact List.mem_cons_of_mem _ (ih hrest)
          · cases h
            exact List.mem_cons_self

theorem oldestKey_isSome {entries : List (String × AuthenticatedSeenEntry)} (h : entries ≠ []) :
    ∃ key t, oldestKey entries = some (key, t) := by
  cases entries with
  | nil => exact absurd rfl h
  | cons p rest =>
      rw [oldestKey]
      cases oldestKey rest with
      | none => exact ⟨_, _, rfl⟩
      | some q =>
          dsimp only
          split
          · exact ⟨_, _, rfl⟩
          · exact ⟨_, _, rfl⟩

/-- At most `authSeenMax` senders, each under a PeerID that is not empty. -/
structure SeenBounded (m : MeshManager) : Prop where
  size_le : m.authenticatedSeen.size ≤ authSeenMax
  key_ne : "" ∉ m.authenticatedSeen.keys

theorem SeenBounded.congr {m' : MeshManager} (h : m.SeenBounded)
    (hseen : m'.authenticatedSeen = m.authenticatedSeen) : m'.SeenBounded :=
  ⟨by rw [hseen]; exact h.size_le, by rw [hseen]; exact h.key_ne⟩

theorem SeenBounded.recordAuthenticatedSeen (h : m.SeenBounded) {entry : AuthenticatedSeenEntry}
    (hentry : entry.peerId ≠ "") (now : Nat) :
    (m.recordAuthenticatedSeen entry now).SeenBounded := by
  unfold MeshManager.recordAuthenticatedSeen
  dsimp only
  generalize m.authenticatedSeen.entries.filter _ = expired
  obtain ⟨hsize, hkeys⟩ := InsertionMap.foldl_delete_le expired m.authenticatedSeen
  generalize expired.foldl (fun seen p => seen.delete p.1) m.authenticatedSeen = pruned
    at hsize hkeys ⊢
  have hset := pruned.size_set_le entry.peerId { entry with lastSeen := now }
  have hne : "" ∉ (pruned.set entry.peerId { entry with lastSeen := now }).keys := by
    intro hmem
    rcases InsertionMap.mem_keys_set.mp hmem with heq | hmem
    · exact hentry heq.symm
    · exact h.key_ne (hkeys hmem)
  have hold := h.size_le
  generalize pruned.set entry.peerId { entry with lastSeen := now } = seen at hset hne ⊢
  by_cases hfull : authSeenMax < seen.size
  · -- One too many: the oldest entry has a key that is not empty, so it is deleted.
    have hentries : seen.entries ≠ [] := by
      intro hnil
      rw [InsertionMap.size, hnil] at hfull
      exact Nat.not_lt_zero _ hfull
    obtain ⟨key, t, holdest⟩ := oldestKey_isSome hentries
    have hmem : key ∈ seen.keys := mem_keys_of_oldestKey holdest
    have hkey : key ≠ "" := fun heq => hne (heq ▸ hmem)
    have hdelete := InsertionMap.size_delete_lt hmem
    rw [if_pos hfull, holdest]
    dsimp only
    rw [if_pos hkey]
    constructor
    · show (seen.delete key).size ≤ authSeenMax
      omega
    · exact fun hmem' => hne (seen.keys_delete_subset key hmem')
  · rw [if_neg hfull]
    exact ⟨Nat.le_of_not_lt hfull, hne⟩

end MeshManager

/-! ## Runs -/

variable {missedBeatsThreshold : Nat}

def CalledMesh.withSeen (s : CalledMesh) (seen : InsertionMap String AuthenticatedSeenEntry) :
    CalledMesh :=
  { s with mesh := s.mesh.withSeen seen }

/-- No call but `recordAuthenticatedSeen` reads or writes the authenticated senders. -/
theorem withSeen_applyCall (missedBeatsThreshold : Nat) (s : CalledMesh)
    (seen : InsertionMap String AuthenticatedSeenEntry) {call : MeshCall}
    (hcall : call.records = false) :
    (applyCall missedBeatsThreshold s call).withSeen seen =
      applyCall missedBeatsThreshold (s.withSeen seen) call := by
  cases call with
  | recordAuthenticatedSeen entry now => cases hcall
  | addPeer discovered now =>
      exact congrArg (CalledMesh.mk · s.results) (withSeen_addPeer seen discovered now)
  | removePeer agentId =>
      exact congrArg (CalledMesh.mk · s.results) (withSeen_removePeer seen agentId)
  | recordHeartbeat agentId now =>
      exact congrArg (CalledMesh.mk · s.results) (withSeen_recordHeartbeat seen agentId now)
  | handleMissedBeat ref =>
      exact congrArg (CalledMesh.mk · s.results) (withSeen_handleMissedBeat seen missedBeatsThreshold)
  | updateAgentCard agentId card =>
      exact congrArg (CalledMesh.mk · s.results) (withSeen_updateAgentCard seen agentId card)
  | confirmPeerDiscovery agentId discovered now =>
      exact congrArg (CalledMesh.mk · s.results)
        (withSeen_confirmPeerDiscovery seen agentId discovered now)
  | markPeerIdVerified peerId senderUri remoteHost =>
      have hmark := withSeen_markPeerIdVerified (m := s.mesh) seen peerId senderUri remoteHost
      simp only [applyCall, CalledMesh.withSeen, hmark]
  | rollback result =>
      -- the undo of a mark is a result of the same run
      have hresults : (s.withSeen seen).results = s.results := rfl
      dsimp only [applyCall]
      rw [hresults]
      cases s.results[result]?.join with
      | none => rfl
      | some undo => exact congrArg (CalledMesh.mk · s.results) (withSeen_rollback seen undo)

theorem unwinding_withSeen (missedBeatsThreshold : Nat) :
    Unwinding (applyCall missedBeatsThreshold) MeshCall.records fun s => s.withSeen .empty where
  hidden_step s call hcall := by
    cases call with
    | recordAuthenticatedSeen entry now => rfl
    | _ => cases hcall
  visible_step s t call hcall hview := by
    rw [withSeen_applyCall _ s _ hcall, withSeen_applyCall _ t _ hcall, hview]

theorem seenBounded_applyCall {s : CalledMesh} (h : s.mesh.SeenBounded) {call : MeshCall}
    (hcall : ∀ entry now, call = .recordAuthenticatedSeen entry now → entry.peerId ≠ "") :
    (applyCall missedBeatsThreshold s call).mesh.SeenBounded := by
  cases hrecords : call.records with
  | true =>
      cases call with
      | recordAuthenticatedSeen entry now => exact h.recordAuthenticatedSeen (hcall _ _ rfl) now
      | _ => cases hrecords
  | false =>
      have hsame : s.withSeen s.mesh.authenticatedSeen = s := rfl
      have hcommute := withSeen_applyCall missedBeatsThreshold s
        s.mesh.authenticatedSeen hrecords
      rw [hsame] at hcommute
      apply h.congr
      rw [← hcommute]
      rfl

theorem seenBounded_foldl (calls : List MeshCall) {s : CalledMesh} (h : s.mesh.SeenBounded)
    (hcalls : ∀ entry now, .recordAuthenticatedSeen entry now ∈ calls → entry.peerId ≠ "") :
    (calls.foldl (applyCall missedBeatsThreshold) s).mesh.SeenBounded := by
  induction calls generalizing s with
  | nil => exact h
  | cons call calls ih =>
      rw [List.foldl_cons]
      apply ih
      · apply seenBounded_applyCall h
        rintro entry now rfl
        exact hcalls entry now List.mem_cons_self
      · exact fun entry now hmem => hcalls entry now (List.mem_cons_of_mem _ hmem)

/-- Authentication never approves a sender.

The approval of every sender is the same in the run without the calls of
`recordAuthenticatedSeen`; a sender is approved if and only if its key is known
without them; an ambiguous PeerID has no key; and the authenticated senders stay
bounded, where every recorded PeerID is nonempty, as that of a certificate is. -/
theorem approval_ignores_authenticated (missedBeatsThreshold : Nat) (calls : List MeshCall) :
    (∀ senderUri, (runCalls missedBeatsThreshold calls).mesh.isApprovedPeerSender senderUri =
      (runCalls missedBeatsThreshold (purge MeshCall.records calls)).mesh.isApprovedPeerSender
        senderUri) ∧
    (∀ (m : MeshManager) (senderUri : String) (now : Nat),
      m.isApprovedPeerSender senderUri = true ↔
        ((m.withSeen .empty).resolvePeerPublicKey senderUri now).isSome = true) ∧
    (∀ (m : MeshManager) (senderUri peerId : String) (now : Nat),
      spiffeUriToPeerId senderUri = some peerId → 2 ≤ (m.verifiedKeys peerId).length →
        m.resolvePeerPublicKey senderUri now = none) ∧
    ((∀ entry now, .recordAuthenticatedSeen entry now ∈ calls → entry.peerId ≠ "") →
      (runCalls missedBeatsThreshold calls).mesh.authenticatedSeen.size ≤ 256) := by
  refine ⟨?_, ?_, ?_, ?_⟩
  · intro senderUri
    have hview : (runCalls missedBeatsThreshold calls).withSeen .empty =
        (runCalls missedBeatsThreshold (purge MeshCall.records calls)).withSeen .empty :=
      (unwinding_withSeen missedBeatsThreshold).view_run calls rfl
    calc (runCalls missedBeatsThreshold calls).mesh.isApprovedPeerSender senderUri
        = ((runCalls missedBeatsThreshold calls).withSeen .empty).mesh.isApprovedPeerSender
            senderUri := rfl
      _ = ((runCalls missedBeatsThreshold (purge MeshCall.records calls)).withSeen
            .empty).mesh.isApprovedPeerSender senderUri := by rw [hview]
      _ = (runCalls missedBeatsThreshold
            (purge MeshCall.records calls)).mesh.isApprovedPeerSender senderUri := rfl
  · exact fun m => isApprovedPeerSender_iff
  · exact fun m senderUri peerId now => resolve_of_ambiguous now
  · intro hcalls
    have hinit : SeenBounded MeshManager.empty := ⟨Nat.zero_le _, List.not_mem_nil⟩
    exact (seenBounded_foldl calls hinit hcalls).size_le

/-! A sender that was only met over an authenticated connection. -/

def seenUri : String := "spiffe://thinklocal/node/QmSeen"

def seenEntry : AuthenticatedSeenEntry :=
  { peerId := "QmSeen", publicKey := "key", spiffeUri := seenUri, certFingerprint := "fp"
    endpoint := "https://10.0.0.2:9440", lastSeen := 0 }

/-- Its key is known, and it is not approved. -/
theorem approval_ignores_authenticated_seen :
    (runCalls 3 [.recordAuthenticatedSeen seenEntry 1]).mesh.resolvePeerPublicKey seenUri 1 =
        some "key" ∧
      (runCalls 3 [.recordAuthenticatedSeen seenEntry 1]).mesh.isApprovedPeerSender seenUri =
        false ∧
      (runCalls 3 [.recordAuthenticatedSeen seenEntry 1]).mesh.authenticatedSeen.size ≤ 256 := by
  obtain ⟨hsame, -, -, hsize⟩ :=
    approval_ignores_authenticated 3 [.recordAuthenticatedSeen seenEntry 1]
  refine ⟨by decide, ?_, ?_⟩
  · rw [hsame]
    decide
  · apply hsize
    intro entry now hmem
    obtain ⟨rfl, -⟩ := by simpa using hmem
    decide

/-! The sender that is never dropped: an empty PeerID is taken for no PeerID. -/

def crowdEntry (i : Nat) : AuthenticatedSeenEntry :=
  { seenEntry with peerId := String.ofList (List.replicate i 'x') }

/-- The empty PeerID and others, all at one time. -/
def crowd (n : Nat) : List MeshCall :=
  (List.range n).map fun i => .recordAuthenticatedSeen (crowdEntry i) 0

def crowdSeen (n : Nat) : List (String × AuthenticatedSeenEntry) :=
  (List.range n).map fun i => ((crowdEntry i).peerId, crowdEntry i)

theorem crowdEntry_injective {i j : Nat} (h : (crowdEntry i).peerId = (crowdEntry j).peerId) :
    i = j := by
  have hlist := congrArg (List.length ∘ String.toList) h
  simpa [crowdEntry] using hlist

theorem oldestKey_crowdSeen (n : Nat) : oldestKey (crowdSeen (n + 1)) = some ("", 0) := by
  have hhead : crowdSeen (n + 1) = ("", crowdEntry 0) ::
      (List.range n).map fun i => ((crowdEntry (i + 1)).peerId, crowdEntry (i + 1)) := by
    rw [crowdSeen, List.range_succ_eq_map, List.map_cons, List.map_map]
    rfl
  rw [hhead, oldestKey]
  split
  · exact if_neg (Nat.not_lt_zero _)
  · rfl

/-- The oldest sender has the empty PeerID, so nobody is dropped. -/
theorem authenticatedSeen_crowd (missedBeatsThreshold n : Nat) :
    (runCalls missedBeatsThreshold (crowd n)).mesh.authenticatedSeen.entries = crowdSeen n := by
  induction n with
  | zero => rfl
  | succ n ih =>
      have hcrowd : crowd (n + 1) = crowd n ++ [.recordAuthenticatedSeen (crowdEntry n) 0] := by
        rw [crowd, List.range_succ, List.map_append]
        rfl
      have hseen : crowdSeen (n + 1) = crowdSeen n ++ [((crowdEntry n).peerId, crowdEntry n)] := by
        rw [crowdSeen, List.range_succ, List.map_append]
        rfl
      rw [runCalls, hcrowd, List.foldl_append, ← runCalls]
      generalize runCalls missedBeatsThreshold (crowd n) = s at ih
      have hfresh : s.mesh.authenticatedSeen.get (crowdEntry n).peerId = none := by
        rw [InsertionMap.get_eq_none_iff, InsertionMap.keys, ih]
        simp only [crowdSeen, List.map_map, List.mem_map, List.mem_range, Function.comp_apply]
        rintro ⟨i, hi, heq⟩
        exact Nat.ne_of_lt hi (crowdEntry_injective heq)
      have hexpired : s.mesh.authenticatedSeen.entries.filter
          (fun p => decide (authSeenTtlMs < 0 - p.2.lastSeen)) = [] := by simp
      have hset := InsertionMap.entries_set_of_absent (v := crowdEntry n) hfresh
      rw [ih, ← hseen] at hset
      show (s.mesh.recordAuthenticatedSeen (crowdEntry n) 0).authenticatedSeen.entries = _
      rw [MeshManager.recordAuthenticatedSeen, hexpired]
      dsimp only [List.foldl_nil]
      rw [show ({ crowdEntry n with lastSeen := 0 } : AuthenticatedSeenEntry) = crowdEntry n from rfl,
        hset, oldestKey_crowdSeen]
      simp [hset]

/-- With 301 senders, the first of them under the empty PeerID, the bound is passed. -/
theorem authenticatedSeen_unbounded :
    ¬ (runCalls 3 (crowd 301)).mesh.authenticatedSeen.size ≤ 256 := by
  rw [InsertionMap.size, authenticatedSeen_crowd, crowdSeen, List.length_map, List.length_range]
  decide

end ThinkLocal.Mesh
