import ThinkLocal.Foundation.InsertionMap
import ThinkLocal.Js.Value

/-!
# The store of paired peers

Peers are kept under the agent id that they had when they were paired.  The fields of a
peer come out of a JSON text of the other side and can have any shape that was not checked
when the peer was paired.
-/

namespace ThinkLocal.Pairing

open Foundation Js

structure PairedPeer where
  agentId : Plain
  publicKeyPem : Plain
  caCertPem : Plain
  fingerprint : Plain
  /-- The instant; the source keeps its ISO text. -/
  pairedAt : Int
  hostname : Plain
deriving DecidableEq

/-- The peers in the order in which they were paired first, each under its agent id. -/
structure PairingStore where
  peers : InsertionMap Plain PairedPeer
  keyed : ∀ agentId peer, peers.get agentId = some peer → peer.agentId = agentId

namespace PairingStore

def empty : PairingStore := ⟨.empty, fun _ _ h => by simp at h⟩

def addPeer (store : PairingStore) (peer : PairedPeer) : PairingStore where
  peers := store.peers.set peer.agentId peer
  keyed := by
    intro agentId peer' h
    rw [InsertionMap.get_set] at h
    split at h
    · obtain rfl := Option.some.inj h
      exact Eq.symm ‹_›
    · exact store.keyed agentId peer' h

def isPaired (store : PairingStore) (agentId : Plain) : Bool := store.peers.has agentId

/-- Whether some peer has the fingerprint of this key. -/
def isPairedByPublicKey (sha256Hex : String → String) (store : PairingStore)
    (publicKeyPem : String) : Bool :=
  publicKeyPem ≠ "" ∧ ∃ peer ∈ store.peers.values, peer.fingerprint = .string (sha256Hex publicKeyPem)

def getPeer (store : PairingStore) (agentId : Plain) : Option PairedPeer :=
  store.peers.get agentId

def getAllPeers (store : PairingStore) : List PairedPeer := store.peers.values

variable {store : PairingStore} {agentId : Plain} {peer : PairedPeer}

/-- A peer that is added is the only one that changes. -/
theorem getPeer_addPeer :
    (store.addPeer peer).getPeer agentId =
      if agentId = peer.agentId then some peer else store.getPeer agentId :=
  InsertionMap.get_set _ _ _ _

end PairingStore

end ThinkLocal.Pairing
