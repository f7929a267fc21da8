import Mathlib.Data.String.Basic
import ThinkLocal.Foundation.Machine
import ThinkLocal.Foundation.MapCrdt
import ThinkLocal.Registry.CapabilityRegistry

/-!
# The registries of many nodes over one replicated document

Every node has a `CapabilityRegistry` over its replica of the document.  It
registers and unregisters its own capabilities; it removes, takes offline or
degrades the capabilities of agents that it considers gone; and it merges what
other nodes send.  The edits are the ones that the registry computes on the
node's own view of the document.

Each write carries the reason for which it was made, and beside the documents the
state records what every node has registered and not unregistered.
-/

namespace ThinkLocal.Registry

open Foundation Foundation.Document

/-! ## Nodes and places -/

/-- The identity of a node; no component of its path contains a colon. -/
structure AgentId where
  path : String
  noColon : ':' ∉ path.toList
  deriving DecidableEq

def spiffePrefix : String := "spiffe://thinklocal/"

/-- The `agent_id` of the node. -/
def AgentId.uri (node : AgentId) : String := spiffePrefix ++ node.path

theorem AgentId.path_injective : Function.Injective AgentId.path := by
  rintro ⟨path, _⟩ ⟨path', _⟩ rfl
  rfl

/-- The order in which the document breaks ties between nodes. -/
instance : LinearOrder AgentId := LinearOrder.lift' AgentId.path AgentId.path_injective

/-- A place of the document: an entry of `capabilities`, or a field of the object
that a write created. -/
inductive Place
  | entry (key : String)
  | field (object : OpId AgentId) (name : String)
  deriving DecidableEq

abbrev Replica := Document AgentId Place Json

/-! ## The view of a document -/

/-- The keys that were ever written. -/
def entryKeys (doc : Replica) : List String :=
  (doc.filterMap fun op =>
    match op.place with
    | .entry key => some key
    | .field _ _ => none).dedup

/-- The fields of the object that were written after its creation. -/
def assignedFields (doc : Replica) (object : OpId AgentId) : List String :=
  (doc.filterMap fun op =>
    match op.place with
    | .entry _ => none
    | .field object' name => if object' = object then some name else none).dedup

/-- The value at a place. -/
def valueAt (doc : Replica) (place : Place) : Option Json :=
  (winner doc place).bind (·.value)

/-- The fields of an object: those it was created with, as last assigned. -/
def fieldsOf (doc : Replica) (object : OpId AgentId) (created : Fields) : Fields :=
  (assignedFields doc object).foldl (fun fields name =>
    match valueAt doc (.field object name) with
    | some value => insertField fields name value
    | none => fields) created

/-- The entry that a write shows. -/
def entryOf (doc : Replica) (op : Op AgentId Place Json) : Json :=
  match op.value with
  | some (.object created) => .object (fieldsOf doc op.id created)
  | some value => value
  | none => .null

/-- `doc.capabilities`. -/
def view (doc : Replica) : Fields :=
  (entryKeys doc).filterMap fun key =>
    (winner doc (.entry key)).map fun op => (key, entryOf doc op)

/-! ## The machine -/

/-- Why a write was made. -/
inductive Reason
  | register (cap : Capability) (now : String)
  | unregister (skillId : String)
  | removePeerCapabilities (agentId : String)
  | markAgentOffline (agentId : String)
  | markStaleCapabilities

/-- A capability that a node registered. -/
structure Registration where
  cap : Capability
  now : String
  /-- The write that registered it. -/
  id : OpId AgentId

structure Network where
  replicas : Replicas AgentId Place Json Reason
  /-- What the node has registered under a skill and not unregistered. -/
  registered : AgentId → String → Option Registration

namespace Network

def init : Network where
  replicas := .empty
  registered := fun _ _ => none

abbrev doc (s : Network) (node : AgentId) : Replica := s.replicas.docs node

/-- The registry of the node over its view of the document. -/
def registry (s : Network) (node : AgentId) : CapabilityRegistry :=
  { CapabilityRegistry.fresh with capabilities := some (.object (view (s.doc node))) }

end Network

/-- One edit of a change as a write to the document; an entry that is not there
takes no field. -/
def commitEdit (node : AgentId) (reason : Reason) (R : Replicas AgentId Place Json Reason) :
    Edit → Replicas AgentId Place Json Reason
  | .put key value => R.write node reason (.entry key) (some value)
  | .delete key => R.write node reason (.entry key) none
  | .assign key name value =>
      match winner (R.docs node) (.entry key) with
      | some op => R.write node reason (.field op.id name) (some value)
      | none => R

/-- The edits of one change. -/
def commitEdits (node : AgentId) (reason : Reason) (R : Replicas AgentId Place Json Reason)
    (edits : List Edit) : Replicas AgentId Place Json Reason :=
  edits.foldl (commitEdit node reason) R

/-- A change of the node's registry as writes to its document. -/
def Network.change (s : Network) (node : AgentId) (reason : Reason)
    (edits : Option Json → Option (List Edit)) : Network :=
  match ((s.registry node).change edits).2 with
  | some es => { s with replicas := commitEdits node reason s.replicas es }
  | none => s

/-- The node's record of a skill. -/
def Network.record (s : Network) (node : AgentId) (skillId : String)
    (registration : Option Registration) : Network where
  replicas := s.replicas
  registered :=
    Function.update s.registered node (Function.update (s.registered node) skillId registration)

theorem Network.registered_record (s : Network) (node : AgentId) (skillId : String)
    (registration : Option Registration) :
    (s.record node skillId registration).registered node skillId = registration := by
  show Function.update s.registered node _ node skillId = registration
  rw [Function.update_self, Function.update_self]

inductive NetworkAction
  | register (node : AgentId) (cap : Capability) (now : String)
  | unregister (node : AgentId) (skillId : String)
  | removePeerCapabilities (node : AgentId) (agentId : String)
  | markAgentOffline (node : AgentId) (agentId : String) (now : String)
  | markStaleCapabilities (node : AgentId) (maxAgeMs now : Int)
  /-- Operations of the sender's document arrive at the receiver. -/
  | sync (sender receiver : AgentId) (ids : List (OpId AgentId))

open CapabilityRegistry in
/-- One step.  A node registers under its own identity and cleans up after others;
`markStaleCapabilities` looks at all entries. -/
def networkStep (dates : Dates) (s : Network) : NetworkAction → Option Network
  | .register node cap now =>
      if cap.agent_id = node.uri then
        let place : Place := .entry (makeKey cap.agent_id cap.skill_id)
        let id := (s.replicas.nextOp node place (some (registered cap now))).id
        some ((s.change node (.register cap now) fun _ =>
          some [.put (makeKey cap.agent_id cap.skill_id) (registered cap now)]).record
            node cap.skill_id (some ⟨cap, now, id⟩))
      else none
  | .unregister node skillId =>
      some ((s.change node (.unregister skillId) fun _ =>
        some [.delete (makeKey node.uri skillId)]).record node skillId none)
  | .removePeerCapabilities node agentId =>
      if agentId = node.uri then none
      else some (s.change node (.removePeerCapabilities agentId) (removePeerEdits agentId))
  | .markAgentOffline node agentId now =>
      if agentId = node.uri then none
      else some (s.change node (.markAgentOffline agentId) (markOfflineEdits agentId now))
  | .markStaleCapabilities node maxAgeMs now =>
      some (s.change node .markStaleCapabilities (markStaleEdits dates maxAgeMs now))
  | .sync sender receiver ids =>
      some { s with replicas := s.replicas.merge receiver ((s.doc sender).filter fun op =>
        op.id ∈ ids ∧ op.id ∉ (s.doc receiver).map Op.id) }

/-- All nodes over one document. -/
def network (dates : Dates) : Machine Network NetworkAction where
  init := .init
  step := networkStep dates

/-! ## Reading the view -/

theorem lookup_filterMap {α : Type} (f : String → Option α) (g : α → Json) (keys : List String)
    (key : String) :
    lookup (keys.filterMap fun k => (f k).map fun a => (k, g a)) key =
      if key ∈ keys then (f key).map g else none := by
  induction keys with
  | nil => rfl
  | cons k rest ih =>
      rw [List.filterMap_cons]
      cases hk : f k with
      | none =>
          rw [Option.map_none, ih]
          by_cases hkey : key = k
          · subst hkey
            simp [hk]
          · simp [hkey]
      | some a =>
          rw [Option.map_some, lookup, ih]
          by_cases hkey : k = key
          · subst hkey
            simp [hk]
          · have hne : key ≠ k := fun heq => hkey heq.symm
            simp [hkey, hne]

theorem mem_entryKeys {doc : Replica} {op : Op AgentId Place Json} {key : String}
    (hop : op ∈ doc) (hplace : op.place = .entry key) : key ∈ entryKeys doc := by
  apply List.mem_dedup.mpr
  refine List.mem_filterMap.mpr ⟨op, hop, ?_⟩
  rw [hplace]

/-- The view shows the winner at every key. -/
theorem lookup_view (doc : Replica) (key : String) :
    lookup (view doc) key = (winner doc (.entry key)).map (entryOf doc) := by
  rw [view, lookup_filterMap]
  split
  · rfl
  · rename_i hkey
    cases hwinner : winner doc (.entry key) with
    | none => rfl
    | some op =>
        obtain ⟨hop, hplace, -⟩ := mem_visible_iff.mp (mem_visible_of_winner hwinner)
        exact absurd (mem_entryKeys hop hplace) hkey

theorem winner_of_mem_view {doc : Replica} {key : String} {value : Json}
    (h : (key, value) ∈ view doc) :
    ∃ op, winner doc (.entry key) = some op ∧ value = entryOf doc op := by
  obtain ⟨key', -, hshown⟩ := List.mem_filterMap.mp h
  obtain ⟨op, hwinner, heq⟩ := Option.map_eq_some_iff.mp hshown
  obtain ⟨rfl, rfl⟩ := Prod.mk.inj heq
  exact ⟨op, hwinner, rfl⟩

theorem lookup_foldl_insertField (f : String → Option Json) (names : List String)
    (created : Fields) (name : String) :
    lookup (names.foldl (fun fields name' =>
      match f name' with
      | some value => insertField fields name' value
      | none => fields) created) name =
      ((if name ∈ names then f name else none).or (lookup created name)) := by
  induction names generalizing created with
  | nil => rfl
  | cons first rest ih =>
      rw [List.foldl_cons, ih]
      -- a later write of the same name is the same value
      by_cases hrest : name ∈ rest
      · rw [if_pos hrest, if_pos (List.mem_cons_of_mem _ hrest)]
        cases hname : f name with
        | some value => rfl
        | none =>
            cases hfirst : f first with
            | none => rfl
            | some value =>
                have hne : name ≠ first := by
                  rintro rfl
                  rw [hname] at hfirst
                  cases hfirst
                simp [lookup_insertField, hne]
      · rw [if_neg hrest]
        by_cases hne : name = first
        · subst hne
          rw [if_pos List.mem_cons_self]
          cases f name with
          | some value => simp [lookup_insertField]
          | none => rfl
        · have hnot : name ∉ first :: rest := by simp [hne, hrest]
          rw [if_neg hnot]
          cases f first with
          | some value => simp [lookup_insertField, hne]
          | none => rfl

/-- A field shows what was last assigned, or else what it was created with. -/
theorem lookup_fieldsOf (doc : Replica) (object : OpId AgentId) (created : Fields)
    (name : String) :
    lookup (fieldsOf doc object created) name =
      (valueAt doc (.field object name)).or (lookup created name) := by
  rw [fieldsOf, lookup_foldl_insertField]
  split
  · rfl
  · rename_i hname
    cases hvalue : valueAt doc (.field object name) with
    | none => rfl
    | some value =>
        obtain ⟨op, hwinner, -⟩ := Option.bind_eq_some_iff.mp hvalue
        obtain ⟨hop, hplace, -⟩ := mem_visible_iff.mp (mem_visible_of_winner hwinner)
        have hassigned : name ∈ assignedFields doc object := by
          apply List.mem_dedup.mpr
          refine List.mem_filterMap.mpr ⟨op, hop, ?_⟩
          rw [hplace]
          exact if_pos rfl
        exact absurd hassigned hname

end ThinkLocal.Registry
