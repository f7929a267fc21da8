import Mathlib
import ThinkLocal.Foundation.Arena
import ThinkLocal.Foundation.InsertionMap
import ThinkLocal.Mesh.PeerIdentity

/-!
# The mesh manager

`MeshManager` of `mesh.ts`.  Peer objects are shared: the map of peers, an undo of
`markPeerIdVerified` and a pending health check may hold the same object, also
after it was removed from the map.  So the objects lie in an arena and everything
else refers to them by number.  The calls of the two event listeners are recorded
in the order in which they are made.
-/

namespace ThinkLocal.Mesh

open Foundation

/-! ## Peers -/

inductive PeerStatus
  | online
  | offline
  | unknown
  deriving DecidableEq, Repr

inductive Libp2pStatus
  | unavailable
  | discovered
  | connected
  deriving DecidableEq, Repr

/-- The libp2p part of an agent card. -/
structure CardLibp2p where
  status : String
  peer_id : Option String
  listen_multiaddrs : Option (List String)
  connected_peers : Option Nat
  open_streams : Option Nat
  deriving DecidableEq, Repr

structure AgentCard where
  spiffeUri : String
  publicKey : String
  libp2p : Option CardLibp2p
  deriving DecidableEq, Repr

structure PeerLibp2p where
  peerId : Option String
  peerIdVerified : Bool
  listenMultiaddrs : List String
  connected : Bool
  status : Libp2pStatus
  deriving DecidableEq, Repr

structure MeshPeer where
  name : String
  host : String
  port : Nat
  agentId : String
  endpoint : String
  status : PeerStatus
  lastSeen : Nat
  missedBeats : Nat
  agentCard : Option AgentCard
  libp2p : PeerLibp2p
  deriving DecidableEq, Repr

structure DiscoveredPeer where
  name : String
  host : String
  port : Nat
  agentId : String
  endpoint : String
  p2pPeerId : Option String
  deriving DecidableEq, Repr

structure AuthenticatedSeenEntry where
  peerId : String
  publicKey : String
  spiffeUri : String
  certFingerprint : String
  endpoint : String
  lastSeen : Nat
  deriving DecidableEq, Repr

/-- The key of a peer's card, if it has one that is not empty. -/
def MeshPeer.publicKey (peer : MeshPeer) : Option String :=
  (peer.agentCard.map (·.publicKey)).filter fun key => key ≠ ""

/-! ## The manager -/

/-- The number of a peer object. -/
abbrev PeerRef := Nat

/-- A call of `onPeerOnline` or `onPeerOffline` for a peer with the given `agentId`. -/
structure PeerEvent where
  online : Bool
  agentId : String
  deriving DecidableEq, Repr

structure MeshManager where
  objects : Arena MeshPeer
  peers : InsertionMap String PeerRef
  authenticatedSeen : InsertionMap String AuthenticatedSeenEntry
  events : List PeerEvent

namespace MeshManager

def empty : MeshManager := ⟨.empty, .empty, .empty, []⟩

/-- Changes a peer object. -/
def modify (m : MeshManager) (ref : PeerRef) (f : MeshPeer → MeshPeer) : MeshManager :=
  { m with objects := m.objects.modify ref f }

/-- Calls a listener with a peer object. -/
def emit (m : MeshManager) (online : Bool) (ref : PeerRef) : MeshManager :=
  match m.objects.get ref with
  | some peer => { m with events := m.events ++ [⟨online, peer.agentId⟩] }
  | none => m

def getPeer (m : MeshManager) (agentId : String) : Option MeshPeer :=
  (m.peers.get agentId).bind m.objects.get

/-- The peers in the order of the map, with their numbers. -/
def refs (m : MeshManager) : List (PeerRef × MeshPeer) :=
  m.peers.values.filterMap fun ref => (m.objects.get ref).map fun peer => (ref, peer)

def addPeer (m : MeshManager) (discovered : DiscoveredPeer) (now : Nat) : MeshManager :=
  match m.peers.get discovered.agentId with
  | some ref =>
      let wasOffline := (m.objects.get ref).any fun peer => peer.status = .offline
      let m := m.modify ref fun peer =>
        { peer with lastSeen := now, missedBeats := 0, status := .online }
      -- A peer with the status `unknown` comes online without an event.
      if wasOffline then m.emit true ref else m
  | none =>
      let peer : MeshPeer :=
        { name := discovered.name, host := discovered.host, port := discovered.port
          agentId := discovered.agentId, endpoint := discovered.endpoint, status := .online
          lastSeen := now, missedBeats := 0, agentCard := none
          libp2p :=
            { peerId := discovered.p2pPeerId, peerIdVerified := false, listenMultiaddrs := []
              connected := false
              status := if discovered.p2pPeerId.any (· ≠ "") then .discovered else .unavailable } }
      let ref := m.objects.next
      emit { m with
        objects := m.objects.alloc peer
        peers := m.peers.set discovered.agentId ref } true ref

def removePeer (m : MeshManager) (agentId : String) : MeshManager :=
  match m.peers.get agentId with
  | some ref =>
      -- The event fires also for a peer that is offline already.
      let m := (m.modify ref fun peer => { peer with status := .offline }).emit false ref
      { m with peers := m.peers.delete agentId }
  | none => m

def recordHeartbeat (m : MeshManager) (agentId : String) (now : Nat) : MeshManager :=
  match m.peers.get agentId with
  | some ref =>
      let wasOnline := (m.objects.get ref).any fun peer => peer.status = .online
      let m := m.modify ref fun peer =>
        { peer with lastSeen := now, missedBeats := 0, status := .online }
      if wasOnline then m else m.emit true ref
  | none => m

/-- The libp2p part of a peer after its card was replaced. -/
def updatedLibp2p (libp2p : PeerLibp2p) (card : Option CardLibp2p) : PeerLibp2p :=
  let newPeerId := (card.bind (·.peer_id)).or libp2p.peerId
  let connected :=
    match card.bind (·.connected_peers) with
    | some n => if n = 0 then libp2p.connected else true
    | none => libp2p.connected
  { peerId := newPeerId
    peerIdVerified := if newPeerId ≠ libp2p.peerId then false else libp2p.peerIdVerified
    listenMultiaddrs := (card.bind (·.listen_multiaddrs)).getD libp2p.listenMultiaddrs
    connected := connected
    status :=
      if card.any fun c => c.status = "ready" then
        if connected ∨ 0 < (card.bind (·.open_streams)).getD 0 then .connected else .discovered
      else libp2p.status }

def updateAgentCard (m : MeshManager) (agentId : String) (card : AgentCard) : MeshManager :=
  match m.peers.get agentId with
  | some ref =>
      m.modify ref fun peer =>
        { peer with agentCard := some card, libp2p := updatedLibp2p peer.libp2p card.libp2p }
  | none => m

def confirmPeerDiscovery (m : MeshManager) (agentId : String) (discovered : DiscoveredPeer)
    (now : Nat) : MeshManager :=
  match m.peers.get agentId with
  | some ref =>
      m.modify ref fun peer =>
        { peer with
          name := discovered.name, host := discovered.host, port := discovered.port
          endpoint := discovered.endpoint, lastSeen := now, missedBeats := 0, status := .online }
  | none => m

/-- `handleMissedBeat`; the object need not be in the map any more. -/
def handleMissedBeat (m : MeshManager) (missedBeatsThreshold : Nat) (ref : PeerRef) :
    MeshManager :=
  let m := m.modify ref fun peer => { peer with missedBeats := peer.missedBeats + 1 }
  if (m.objects.get ref).any fun peer => missedBeatsThreshold ≤ peer.missedBeats then
    (m.modify ref fun peer => { peer with status := .offline }).emit false ref
  else m

/-- The peers that `checkPeers` polls. -/
def activePeers (m : MeshManager) : List (String × PeerRef) :=
  m.peers.entries.filter fun p =>
    (m.objects.get p.2).any fun peer => peer.status ≠ .offline

/-! ## Readers -/

def getOnlinePeers (m : MeshManager) : List MeshPeer :=
  (m.refs.map Prod.snd).filter fun peer => peer.status = .online

structure PeerCounts where
  known : Nat
  online : Nat
  offline : Nat
  deriving DecidableEq, Repr

def getPeerCounts (m : MeshManager) : PeerCounts where
  known := m.peers.size
  online := ((m.refs.map Prod.snd).filter fun peer => peer.status = .online).length
  offline := ((m.refs.map Prod.snd).filter fun peer => peer.status ≠ .online).length

/-- The lifetime of an entry of `authenticatedSeen` and how many are kept. -/
def authSeenTtlMs : Nat := 15 * 60000

def authSeenMax : Nat := 256

/-- The key with the smallest `lastSeen`, the first one among equals. -/
def oldestKey : List (String × AuthenticatedSeenEntry) → Option (String × Nat)
  | [] => none
  | (key, entry) :: rest =>
      match oldestKey rest with
      | some (key', t) => if t < entry.lastSeen then some (key', t) else some (key, entry.lastSeen)
      | none => some (key, entry.lastSeen)

def recordAuthenticatedSeen (m : MeshManager) (entry : AuthenticatedSeenEntry) (now : Nat) :
    MeshManager :=
  let expired := m.authenticatedSeen.entries.filter fun p => authSeenTtlMs < now - p.2.lastSeen
  let pruned := expired.foldl (fun seen p => seen.delete p.1) m.authenticatedSeen
  let seen := pruned.set entry.peerId { entry with lastSeen := now }
  let capped :=
    if authSeenMax < seen.size then
      match oldestKey seen.entries with
      | some (key, _) => if key ≠ "" then seen.delete key else seen
      | none => seen
    else seen
  { m with authenticatedSeen := capped }

/-- Does the peer count for the PeerID: a card with a key and a verified binding? -/
def verifiedFor (peerId : String) (peer : MeshPeer) : Bool :=
  peer.publicKey.isSome && peer.libp2p.peerIdVerified && peer.libp2p.peerId = some peerId

/-- The keys of the verified entries of a PeerID. -/
def verifiedKeys (m : MeshManager) (peerId : String) : List String :=
  (m.refs.map Prod.snd).filterMap fun peer =>
    if verifiedFor peerId peer then peer.publicKey else none

/-- The key of the first card that carries the URI. -/
def cardKey (peers : List MeshPeer) (uri : String) : Option String :=
  (peers.find? fun peer =>
    peer.publicKey.isSome ∧ peer.agentCard.any fun card => card.spiffeUri = uri).bind
      MeshPeer.publicKey

def resolvePeerPublicKey (m : MeshManager) (senderUri : String) (now : Nat) : Option String :=
  match spiffeUriToPeerId senderUri with
  | some wantPeerId =>
      match m.verifiedKeys wantPeerId with
      | [key] => some key
      | _ :: _ :: _ => none
      -- Only without a verified entry is the authenticated sighting asked.
      | [] =>
          (m.authenticatedSeen.get wantPeerId).bind fun seen =>
            if seen.spiffeUri = senderUri ∧ now - seen.lastSeen ≤ authSeenTtlMs then
              some seen.publicKey
            else none
  | none =>
      ((m.getPeer senderUri).bind MeshPeer.publicKey).or
        (cardKey (m.refs.map Prod.snd) senderUri)

def isApprovedPeerSender (m : MeshManager) (senderUri : String) : Bool :=
  match spiffeUriToPeerId senderUri with
  | some wantPeerId =>
      ((m.refs.map Prod.snd).filter (verifiedFor wantPeerId)).length = 1
  | none =>
      ((m.getPeer senderUri).bind MeshPeer.publicKey).isSome ||
        (cardKey (m.refs.map Prod.snd) senderUri).isSome

/-! ## Verifying a PeerID -/

/-- `normHost`: without an IPv4-in-IPv6 start and without a zone. -/
def normHost (host : String) : List Char :=
  let mapped := "::ffff:".toList
  let text :=
    if (host.toList.take mapped.length).map Char.toLower = mapped then
      host.toList.drop mapped.length
    else host.toList
  dropZone text
where
  /-- Everything from the first `%` after which the line does not end. -/
  dropZone : List Char → List Char
    | [] => []
    | c :: rest =>
        if c = '%' ∧ rest.all (fun d => d ∉ ['\n', '\r', '\u2028', '\u2029']) then []
        else c :: dropZone rest

/-- The peers that carry the PeerID. -/
def byPeerId (m : MeshManager) (peerId : String) : List PeerRef :=
  (m.refs.filter fun p => p.2.libp2p.peerId = some peerId).map Prod.fst

/-- The card-backed peers at the host that are not bound to another PeerID. -/
def byHost (m : MeshManager) (peerId remoteHost : String) : List PeerRef :=
  (m.refs.filter fun p =>
    p.2.publicKey.isSome ∧ normHost p.2.host = normHost remoteHost ∧
      (p.2.libp2p.peerId = none ∨ p.2.libp2p.peerId = some peerId) ∧
      ¬ (p.2.libp2p.peerIdVerified ∧ p.2.libp2p.peerId ≠ some peerId)).map Prod.fst

/-- The peer that an attestation is about, and whether it was found by its host. -/
def markTarget (m : MeshManager) (peerId senderUri : String) (remoteHost : Option String) :
    Option (PeerRef × Bool) :=
  match m.peers.get senderUri with
  | some ref => some (ref, false)
  | none =>
      match m.byPeerId peerId with
      | [ref] => some (ref, false)
      | _ =>
          (remoteHost.filter fun host => host ≠ "" ∧ normHost host ≠ []).bind fun host =>
            match m.byHost peerId host with
            | [ref] => some (ref, true)
            | _ => none

/-- What the `rollback` of a result holds on to. -/
inductive Undo
  /-- The binding of the target, its key before it was moved to the sender's URI, and
  the superseded entries. -/
  | binding (target : PeerRef) (peerId : Option String) (verified : Bool)
      (rekeyed : Option (String × String)) (removed : List (String × PeerRef))
  | flag (target : PeerRef) (verified : Bool)

/-- The other peers that carry the PeerID, in the order of the map. -/
def superseded (m : MeshManager) (peerId : String) (target : PeerRef) :
    List (String × PeerRef) :=
  m.peers.entries.filter fun p =>
    p.2 ≠ target ∧ (m.objects.get p.2).any fun peer => peer.libp2p.peerId = some peerId

def bindPeerId (peerId : String) (peer : MeshPeer) : MeshPeer :=
  { peer with libp2p := { peer.libp2p with peerId := some peerId, peerIdVerified := true } }

/-- The binding, the supersession and the new key for a target that may be bound. -/
def bindTarget (m : MeshManager) (peerId senderUri : String) (target : PeerRef)
    (targetViaRemoteHost : Bool) (t : MeshPeer) : MeshManager × Undo :=
  let bound := m.modify target (bindPeerId peerId)
  if spiffeUriToPeerId senderUri = some peerId then
    let removed := bound.superseded peerId target
    let pruned := removed.foldl (fun m p => m.removePeer p.1) bound
    -- The key of the sender may have been freed by the removal of the duplicates.
    let occupant := pruned.peers.get senderUri
    if t.agentId ≠ senderUri ∧ targetViaRemoteHost = false ∧
        (occupant = none ∨ occupant = some target) then
      let moved := pruned.modify target fun peer => { peer with agentId := senderUri }
      ({ moved with peers := (pruned.peers.delete t.agentId).set senderUri target },
        .binding target t.libp2p.peerId t.libp2p.peerIdVerified (some (t.agentId, senderUri))
          removed)
    else (pruned, .binding target t.libp2p.peerId t.libp2p.peerIdVerified none removed)
  else (bound, .binding target t.libp2p.peerId t.libp2p.peerIdVerified none [])

/-- `markPeerIdVerified` and, if it is `ok`, the undo of its result. -/
def markPeerIdVerified (m : MeshManager) (peerId : String) (senderUri remoteHost : Option String) :
    MeshManager × Option Undo :=
  match senderUri.filter fun uri => uri ≠ "" with
  | some senderUri =>
      match m.markTarget peerId senderUri remoteHost with
      | none => (m, none)
      | some (target, targetViaRemoteHost) =>
          match m.objects.get target with
          | none => (m, none)
          | some t =>
              -- A peer that is bound to another PeerID is never bound anew.
              if t.libp2p.peerId ≠ none ∧ t.libp2p.peerId ≠ some peerId then (m, none)
              else
                let marked := m.bindTarget peerId senderUri target targetViaRemoteHost t
                (marked.1, some marked.2)
  | none =>
      match m.refs.filter fun p => p.2.libp2p.peerId = some peerId with
      | [(target, t)] =>
          (m.modify target fun peer =>
              { peer with libp2p := { peer.libp2p with peerIdVerified := true } },
            some (.flag target t.libp2p.peerIdVerified))
      | _ => (m, none)

/-- `rollback`. -/
def rollback (m : MeshManager) : Undo → MeshManager
  | .binding target peerId verified rekeyed removed =>
      let m := m.modify target fun peer =>
        { peer with libp2p := { peer.libp2p with peerId := peerId, peerIdVerified := verified } }
      let m :=
        match rekeyed with
        | some (priorAgentId, senderUri) =>
            let freed := m.peers.delete senderUri
            { m.modify target fun peer => { peer with agentId := priorAgentId } with
              peers := freed.set priorAgentId target }
        | none => m
      { m with
        peers := removed.foldl (fun peers p =>
          -- A removed entry comes back at the end of the map, and still offline.
          if peers.has p.1 then peers else peers.set p.1 p.2) m.peers }
  | .flag target verified =>
      m.modify target fun peer =>
        { peer with libp2p := { peer.libp2p with peerIdVerified := verified } }

end MeshManager

end ThinkLocal.Mesh
