import ThinkLocal.Foundation.InsertionMap
import ThinkLocal.Foundation.Machine
import ThinkLocal.Js.Json

/-!
# The file of the paired peers

`PairingStore` of `pairing.ts` with its file `paired-peers.json`.  Every change overwrites the file
in place; the constructor loads what it can and keeps what it has loaded when it meets an error.
-/

namespace ThinkLocal.PairingFile

open Foundation Js

structure PairedPeer where
  agentId : String
  publicKeyPem : String
  caCertPem : String
  fingerprint : String
  pairedAt : String
  hostname : String
deriving DecidableEq

def PairedPeer.json (peer : PairedPeer) : Json :=
  .object [("agentId", .string peer.agentId), ("publicKeyPem", .string peer.publicKeyPem),
    ("caCertPem", .string peer.caCertPem), ("fingerprint", .string peer.fingerprint),
    ("pairedAt", .string peer.pairedAt), ("hostname", .string peer.hostname)]

/-- A key of the map; an object is only equal to itself, and is named by its place in the file. -/
inductive AgentKey
  | undefined
  | null
  | boolean (value : Bool)
  | number (value : Number)
  | string (text : String)
  | object (place : Nat)
deriving DecidableEq

/-- `peer.agentId` of the entry at a place; `none` where it throws. -/
def agentKey (place : Nat) : Json → Option AgentKey
  | .null => none
  | .object fields =>
      some <|
        match Json.fieldOf fields "agentId" with
        | none => .undefined
        | some .null => .null
        | some (.boolean value) => .boolean value
        | some (.number value) => .number value
        | some (.string text) => .string text
        | some (.array _) | some (.object _) => .object place
  | _ => some .undefined

abbrev Peers := InsertionMap AgentKey Json

/-- What `for … of` runs through; `none` where it throws. -/
def iterate : Json → Option (List Json)
  | .array items => some items
  | .string text => some (text.toList.map fun c => .string (String.singleton c))
  | _ => none

/-- The loop of `load` from a place on, up to the first entry that throws. -/
def loadFrom : Nat → List Json → Peers → Peers
  | _, [], peers => peers
  | place, entry :: rest, peers =>
      match agentKey place entry with
      | none => peers
      | some key => loadFrom (place + 1) rest (peers.set key entry)

/-- `load`, of a file that may be absent. -/
def load (file : Option String) : Peers :=
  match (file.bind Json.parse).bind iterate with
  | none => .empty
  | some entries => loadFrom 0 entries .empty

/-- The text that `save` writes. -/
def saved (peers : Peers) : String := Json.stringify 2 (.array peers.values)

inductive Call
  | addPeer (peer : PairedPeer)
  | removePeer (agentId : String)

/-- The agent of a call. -/
def Call.agent : Call → String
  | addPeer peer => peer.agentId
  | removePeer agentId => agentId

/-- The map after a call. -/
def apply (peers : Peers) : Call → Peers
  | .addPeer peer => peers.set (.string peer.agentId) peer.json
  | .removePeer agentId => peers.delete (.string agentId)

/-- The text that a call writes, if it writes. -/
def written (peers : Peers) : Call → Option String
  | .addPeer peer => some (saved (apply peers (.addPeer peer)))
  | .removePeer agentId =>
      if peers.has (.string agentId) then some (saved (apply peers (.removePeer agentId))) else none

/-! ## Runs -/

/-- A daemon with its file. -/
structure State where
  file : Option String
  peers : Peers

/-- The constructor. -/
def State.start (file : Option String) : State := ⟨file, load file⟩

def State.call (s : State) (call : Call) : State where
  file := written s.peers call <|> s.file
  peers := apply s.peers call

/-- The contents that a call can leave in the file if the daemon dies in it. -/
def State.CrashFile (s : State) (call : Call) (file : Option String) : Prop :=
  file = s.file ∨ ∃ text ∈ written s.peers call, ∃ cut ∈ file, cut.toList <+: text.toList

instance (s : State) (call : Call) (file : Option String) : Decidable (s.CrashFile call file) := by
  unfold State.CrashFile
  infer_instance

inductive Action
  | call (call : Call)
  | restart
  /-- The daemon dies in a call and is started again. -/
  | crash (call : Call) (file : Option String)

def step (s : State) : Action → Option State
  | .call call => some (s.call call)
  | .restart => some (.start s.file)
  | .crash call file => if s.CrashFile call file then some (.start file) else none

/-- A daemon that starts on a content of the file, or without a file. -/
def pairingStore (content : Option String) : Machine State Action where
  init := .start content
  step := step

/-! ## Pairings -/

def textField (fields : List (String × Json)) (key : String) : Option String :=
  match Json.fieldOf fields key with
  | some (.string text) => some text
  | _ => none

/-- The pairing that an entry is, if all its fields are texts. -/
def pairing : Json → Option PairedPeer
  | .object fields => do
      return ⟨← textField fields "agentId", ← textField fields "publicKeyPem",
        ← textField fields "caCertPem", ← textField fields "fingerprint",
        ← textField fields "pairedAt", ← textField fields "hostname"⟩
  | _ => none

/-- The pairings that are loaded. -/
def pairings (peers : Peers) : List PairedPeer := peers.values.filterMap pairing

/-- The entries of a file. -/
def entries (file : Option String) : List Json :=
  match file.bind Json.parse with
  | some (.array items) => items
  | _ => []

/-- The pairings in a file, whether or not they are loaded. -/
def filePairings (file : Option String) : List PairedPeer := (entries file).filterMap pairing

end ThinkLocal.PairingFile
