import ThinkLocal.Foundation.InsertionMap
import ThinkLocal.Foundation.Machine
import ThinkLocal.Js.Data
import ThinkLocal.Js.Value
import ThinkLocal.Spiffe.SpiffeUri

/-!
# Registered agent instances

`AgentRegistry` of `agent-registry.ts` and the routes of `agent-api.ts`.  An agent
registers its instance under an id, keeps the entry alive by heartbeats and is handed the
URI of the instance, which is made from the identity of the daemon.
-/

namespace ThinkLocal.Inbox

open Foundation Js Mesh Spiffe

/-! ## The registry -/

structure AgentRegistryEntry where
  instanceId : String
  agentType : String
  spiffeUri : String
  /-- The text of the number. -/
  pid : Option String
  cliVersion : Option String
  registeredAt : Int
  lastHeartbeatAt : Int
deriving DecidableEq

/-- The entries in the order of their registration, each under its instance id. -/
structure AgentRegistry where
  entries : InsertionMap String AgentRegistryEntry
  heartbeatIntervalMs : Nat
  staleFactor : Nat
  maxEntries : Nat
  keyed : ∀ instanceId entry, entries.get instanceId = some entry → entry.instanceId = instanceId

structure RegisterInput where
  instanceId : String
  agentType : String
  spiffeUri : String
  pid : Option String
  cliVersion : Option String

namespace AgentRegistry

def new (heartbeatIntervalMs staleFactor maxEntries : Nat) : AgentRegistry :=
  ⟨.empty, heartbeatIntervalMs, staleFactor, maxEntries, fun _ _ h => by simp at h⟩

def get (registry : AgentRegistry) (instanceId : String) : Option AgentRegistryEntry :=
  registry.entries.get instanceId

def list (registry : AgentRegistry) : List AgentRegistryEntry := registry.entries.values

/-- Puts an entry under its instance id. -/
def put (registry : AgentRegistry) (entry : AgentRegistryEntry) : AgentRegistry :=
  { registry with
    entries := registry.entries.set entry.instanceId entry
    keyed := by
      intro instanceId other h
      rw [InsertionMap.get_set] at h
      split at h
      case isTrue heq =>
        obtain rfl := Option.some.inj h
        exact heq.symm
      case isFalse => exact registry.keyed instanceId other h }

/-- The entry of a new registration. -/
def newEntry (input : RegisterInput) (now : Int) : AgentRegistryEntry where
  instanceId := input.instanceId
  agentType := input.agentType
  spiffeUri := input.spiffeUri
  pid := input.pid
  cliVersion := input.cliVersion
  registeredAt := now
  lastHeartbeatAt := now

/-- A known instance keeps its entry; `none` if there is no place for a new one. -/
def register (registry : AgentRegistry) (input : RegisterInput) (now : Int) :
    Option (AgentRegistry × AgentRegistryEntry) :=
  match registry.get input.instanceId with
  | some existing =>
      let entry := { existing with lastHeartbeatAt := now }
      some (registry.put entry, entry)
  | none =>
      if registry.maxEntries ≤ registry.entries.size then none
      else some (registry.put (newEntry input now), newEntry input now)

def heartbeat (registry : AgentRegistry) (instanceId : String) (now : Int) :
    Option (AgentRegistry × AgentRegistryEntry) :=
  (registry.get instanceId).map fun existing =>
    let entry := { existing with lastHeartbeatAt := now }
    (registry.put entry, entry)

/-- Keeps the entries that satisfy a condition. -/
def keep (registry : AgentRegistry) (entries : InsertionMap String AgentRegistryEntry)
    (h : ∀ instanceId entry, entries.get instanceId = some entry →
      registry.entries.get instanceId = some entry) : AgentRegistry :=
  { registry with entries, keyed := fun id entry hget => registry.keyed id entry (h id entry hget) }

def unregister (registry : AgentRegistry) (instanceId : String) : AgentRegistry :=
  registry.keep (registry.entries.delete instanceId) fun _ _ h => (InsertionMap.get_of_get_delete h).2

/-- Evicts what has not been heard of for too long. -/
def sweep (registry : AgentRegistry) (now : Int) : AgentRegistry :=
  registry.keep
    (registry.entries.filter fun _ entry =>
      ¬ ((registry.heartbeatIntervalMs * registry.staleFactor : Nat) : Int) <
        now - entry.lastHeartbeatAt)
    fun _ _ h => by
      rw [InsertionMap.get_filter] at h
      exact (Option.filter_eq_some_iff.mp h).1

end AgentRegistry

/-! ## The routes -/

/-- A call from the same host. -/
def isLocal (ip : String) : Bool := ip = "127.0.0.1" ∨ ip = "::1" ∨ ip = "::ffff:127.0.0.1"

def nodeIdentifier : ParsedSpiffeUri → String
  | .node nodePeerId _ => nodePeerId
  | .host stableNodeId _ _ _ => stableNodeId

/-- `none` for a daemon URI or components that are malformed. -/
def buildInstanceSpiffe (daemonSpiffeUri agentType instanceId : String) : Option String :=
  match parseSpiffeUri daemonSpiffeUri with
  | .error _ => none
  | .ok parsed => (buildInstanceUri (nodeIdentifier parsed) agentType instanceId).toOption

/-- The text of a nonempty string of at most 128 characters. -/
def nonEmptyText (value : Plain) : Option String :=
  value.text?.filter fun text => text ≠ "" ∧ Data.utf16Length text ≤ 128

structure RegisterBody where
  agent_type : Plain
  instance_id : Plain
  pid : Plain
  cli_version : Plain

inductive AgentReply
  | error (code : Nat) (error : String) (details : List (String × String))
  | registered (instance_spiffe_uri : String) (heartbeat_interval_ms inbox_schema_version : Nat)
  | alive
  | unregistered (existed : Bool)

/-- The text of a number. -/
def numberText : Plain → Option String
  | .number text => some text
  | _ => none

/-- The registration of checked texts. -/
def registerInstance (daemonSpiffeUri : String) (inboxSchemaVersion : Nat)
    (registry : AgentRegistry) (body : RegisterBody) (agentType instanceId : String) (now : Int) :
    AgentRegistry × AgentReply :=
  match buildInstanceSpiffe daemonSpiffeUri agentType instanceId with
  | none =>
      (registry, .error 500 "daemon misconfiguration: cannot derive instance SPIFFE URI" [])
  | some spiffeUri =>
      match (registry.get instanceId).filter fun existing => existing.agentType ≠ agentType with
      | some existing =>
          (registry, .error 409 "instance_id already registered with a different agent_type"
            [("existing_agent_type", existing.agentType)])
      | none =>
          let input : RegisterInput :=
            ⟨instanceId, agentType, spiffeUri, numberText body.pid, nonEmptyText body.cli_version⟩
          match registry.register input now with
          | some (registry, entry) =>
              (registry, .registered entry.spiffeUri registry.heartbeatIntervalMs inboxSchemaVersion)
          | none =>
              (registry, .error 503 "agent registry is full — retry later"
                [("max_entries", toString registry.maxEntries)])

/-- `POST /api/agent/register`. -/
def postRegister (daemonSpiffeUri : String) (inboxSchemaVersion : Nat) (registry : AgentRegistry)
    (ip : String) (body : Option RegisterBody) (now : Int) : AgentRegistry × AgentReply :=
  if isLocal ip then
    match body with
    | none => (registry, .error 400 "missing JSON body" [])
    | some body =>
        match nonEmptyText body.agent_type, nonEmptyText body.instance_id with
        | none, _ => (registry, .error 400 "agent_type required (string, <=128 chars)" [])
        | some _, none => (registry, .error 400 "instance_id required (string, <=128 chars)" [])
        | some agentType, some instanceId =>
            if ¬ isComponent instanceId then
              (registry, .error 400 "instance_id must match [A-Za-z0-9._-]+" [])
            else if ¬ isComponent agentType then
              (registry, .error 400 "agent_type must match [A-Za-z0-9._-]+" [])
            else
              registerInstance daemonSpiffeUri inboxSchemaVersion registry body agentType
                instanceId now
  else (registry, .error 403 "agent API is local-only" [("remote", ip)])

/-- `POST /api/agent/heartbeat` with the field `instance_id` of the body, if there is one. -/
def postHeartbeat (registry : AgentRegistry) (ip : String) (instance_id : Plain) (now : Int) :
    AgentRegistry × AgentReply :=
  if isLocal ip then
    match nonEmptyText instance_id with
    | none => (registry, .error 400 "instance_id required" [])
    | some instanceId =>
        match registry.heartbeat instanceId now with
        | some (registry, _) => (registry, .alive)
        | none => (registry, .error 404 "unknown instance_id — re-register required" [])
  else (registry, .error 403 "agent API is local-only" [("remote", ip)])

/-- `POST /api/agent/unregister`. -/
def postUnregister (registry : AgentRegistry) (ip : String) (instance_id : Plain) :
    AgentRegistry × AgentReply :=
  if isLocal ip then
    match nonEmptyText instance_id with
    | none => (registry, .error 400 "instance_id required" [])
    | some instanceId =>
        (registry.unregister instanceId, .unregistered (registry.get instanceId).isSome)
  else (registry, .error 403 "agent API is local-only" [("remote", ip)])

/-! ## Runs -/

inductive AgentApiAction
  | register (ip : String) (body : Option RegisterBody) (now : Int)
  | heartbeat (ip : String) (instance_id : Plain) (now : Int)
  | unregister (ip : String) (instance_id : Plain)
  | sweep (now : Int)

/-- The registry of a daemon with any calls of its routes. -/
def agentApi (daemonSpiffeUri : String) (inboxSchemaVersion heartbeatIntervalMs staleFactor
    maxEntries : Nat) : Machine AgentRegistry AgentApiAction where
  init := .new heartbeatIntervalMs staleFactor maxEntries
  step registry
    | .register ip body now =>
        some (postRegister daemonSpiffeUri inboxSchemaVersion registry ip body now).1
    | .heartbeat ip instance_id now => some (postHeartbeat registry ip instance_id now).1
    | .unregister ip instance_id => some (postUnregister registry ip instance_id).1
    | .sweep now => some (registry.sweep now)

/-- Every entry has the URI that the daemon gives to its instance. -/
def WellNamed (daemonSpiffeUri : String) (registry : AgentRegistry) : Prop :=
  ∀ instanceId entry, registry.get instanceId = some entry →
    buildInstanceSpiffe daemonSpiffeUri entry.agentType instanceId = some entry.spiffeUri

variable {D : String} {registry registry' : AgentRegistry} {entry : AgentRegistryEntry}

theorem AgentRegistry.get_put {instanceId : String} :
    (registry.put entry).get instanceId =
      if instanceId = entry.instanceId then some entry else registry.get instanceId :=
  InsertionMap.get_set _ _ _ _

theorem WellNamed.put (h : WellNamed D registry)
    (hentry : buildInstanceSpiffe D entry.agentType entry.instanceId = some entry.spiffeUri) :
    WellNamed D (registry.put entry) := by
  intro instanceId other hget
  rw [AgentRegistry.get_put] at hget
  split at hget
  case isTrue heq =>
    obtain rfl := Option.some.inj hget
    rw [heq]
    exact hentry
  case isFalse => exact h instanceId other hget

theorem WellNamed.mono (h : WellNamed D registry)
    (hkept : ∀ instanceId entry, registry'.get instanceId = some entry →
      registry.get instanceId = some entry) : WellNamed D registry' :=
  fun instanceId entry hget => h instanceId entry (hkept instanceId entry hget)

/-- A heartbeat of a known instance. -/
theorem WellNamed.refresh (h : WellNamed D registry) {instanceId : String}
    (hget : registry.get instanceId = some entry) (now : Int) :
    WellNamed D (registry.put { entry with lastHeartbeatAt := now }) := by
  refine h.put ?_
  have hid : entry.instanceId = instanceId := registry.keyed instanceId entry hget
  show buildInstanceSpiffe D entry.agentType entry.instanceId = some entry.spiffeUri
  rw [hid]
  exact h instanceId entry hget

theorem WellNamed.register (h : WellNamed D registry) {input : RegisterInput} {now : Int}
    (hinput : buildInstanceSpiffe D input.agentType input.instanceId = some input.spiffeUri)
    (hregister : registry.register input now = some (registry', entry)) :
    WellNamed D registry' := by
  unfold AgentRegistry.register at hregister
  split at hregister
  case h_1 existing hget =>
    obtain ⟨rfl, -⟩ := Prod.mk.inj (Option.some.inj hregister)
    exact h.refresh hget now
  case h_2 =>
    split at hregister
    case isTrue => cases hregister
    case isFalse =>
      obtain ⟨rfl, -⟩ := Prod.mk.inj (Option.some.inj hregister)
      exact h.put hinput

theorem wellNamed_registerInstance (h : WellNamed D registry) {version : Nat}
    {body : RegisterBody} {agentType instanceId : String} {now : Int} :
    WellNamed D (registerInstance D version registry body agentType instanceId now).1 := by
  unfold registerInstance
  split
  case h_1 => exact h
  case h_2 spiffeUri huri =>
    split
    case h_1 => exact h
    case h_2 =>
      dsimp only
      split
      case h_1 hregister => exact h.register huri hregister
      case h_2 => exact h

theorem wellNamed_step (h : WellNamed D registry) {version : Nat} {a : AgentApiAction}
    {heartbeatIntervalMs staleFactor maxEntries : Nat}
    (hstep : (agentApi D version heartbeatIntervalMs staleFactor maxEntries).step registry a =
      some registry') : WellNamed D registry' := by
  cases a with
  | register ip body now =>
      obtain rfl := Option.some.inj hstep
      -- all branches but the last leave the registry as it is
      unfold postRegister
      split
      case isFalse => exact h
      case isTrue =>
        split
        case h_1 => exact h
        case h_2 =>
          split
          case h_1 | h_2 => exact h
          case h_3 =>
            split
            case isTrue => exact h
            case isFalse =>
              split
              case isTrue => exact h
              case isFalse => exact wellNamed_registerInstance h
  | heartbeat ip instance_id now =>
      obtain rfl := Option.some.inj hstep
      unfold postHeartbeat
      split
      case isFalse => exact h
      case isTrue =>
        split
        case h_1 => exact h
        case h_2 instanceId _ =>
          split
          case h_2 => exact h
          case h_1 found _ hbeat =>
            obtain ⟨existing, hget, hfound⟩ := Option.map_eq_some_iff.mp hbeat
            obtain ⟨rfl, -⟩ := Prod.mk.inj hfound
            exact h.refresh hget now
  | unregister ip instance_id =>
      obtain rfl := Option.some.inj hstep
      unfold postUnregister
      split
      case isFalse => exact h
      case isTrue =>
        split
        case h_1 => exact h
        case h_2 => exact h.mono fun _ _ hget => (InsertionMap.get_of_get_delete hget).2
  | sweep now =>
      obtain rfl := Option.some.inj hstep
      refine h.mono fun instanceId entry hget => ?_
      have hkept : (registry.entries.filter _).get instanceId = some entry := hget
      rw [InsertionMap.get_filter] at hkept
      exact (Option.filter_eq_some_iff.mp hkept).1

theorem wellNamed_of_reachable {version heartbeatIntervalMs staleFactor maxEntries : Nat}
    (h : (agentApi D version heartbeatIntervalMs staleFactor maxEntries).Reachable registry) :
    WellNamed D registry := by
  refine h.invariant ?_ fun _ _ _ hs hstep => wellNamed_step hs hstep
  intro instanceId entry hget
  cases hget

/-! ## A registration -/

theorem AgentRegistry.register_eq_some {input : RegisterInput} {now : Int}
    (h : registry.register input now = some (registry', entry)) :
    (∃ existing, registry.get input.instanceId = some existing ∧
        entry.spiffeUri = existing.spiffeUri) ∨ entry.spiffeUri = input.spiffeUri := by
  unfold register at h
  split at h
  case h_1 existing hget =>
    obtain ⟨-, rfl⟩ := Prod.mk.inj (Option.some.inj h)
    exact .inl ⟨existing, hget, rfl⟩
  case h_2 =>
    split at h
    case isTrue => cases h
    case isFalse =>
      obtain ⟨-, rfl⟩ := Prod.mk.inj (Option.some.inj h)
      exact .inr rfl

/-- The URI that a registration returns is the one of the instance. -/
theorem buildInstanceSpiffe_of_registered (hnamed : WellNamed D registry) {version : Nat}
    {ip uri agentType instanceId : String} {body : RegisterBody} {now : Int} {interval v : Nat}
    (htype : body.agent_type = .string agentType) (hinst : body.instance_id = .string instanceId)
    (h : (postRegister D version registry ip (some body) now).2 = .registered uri interval v) :
    buildInstanceSpiffe D agentType instanceId = some uri := by
  unfold postRegister at h
  split at h
  case isFalse => cases h
  case isTrue =>
    dsimp only at h
    split at h
    case h_1 | h_2 => cases h
    case h_3 type inst htype' hinst' =>
      rw [htype] at htype'
      rw [hinst] at hinst'
      obtain rfl := Option.some.inj (Option.filter_eq_some_iff.mp htype').1
      obtain rfl := Option.some.inj (Option.filter_eq_some_iff.mp hinst').1
      split at h
      case isTrue => cases h
      case isFalse =>
        split at h
        case isTrue => cases h
        case isFalse =>
          unfold registerInstance at h
          split at h
          case h_1 => cases h
          case h_2 spiffeUri huri =>
            split at h
            case h_1 => cases h
            case h_2 hsame =>
              dsimp only at h
              split at h
              case h_2 => cases h
              case h_1 found entry hregister =>
                obtain ⟨rfl, -⟩ := AgentReply.registered.inj h
                rcases AgentRegistry.register_eq_some hregister with ⟨existing, hget, hold⟩ | hnew
                · -- A known instance has the same type, so it was given the same URI.
                  have htypes : existing.agentType = agentType := by
                    rw [hget] at hsame
                    simpa using hsame
                  rw [hold, ← htypes]
                  exact hnamed instanceId existing hget
                · rw [hnew]
                  exact huri

/-- The URI of an instance is the one of its type on the node of the daemon. -/
theorem buildInstanceSpiffe_eq_some {agentType instanceId uri : String} :
    buildInstanceSpiffe D agentType instanceId = some uri ↔
      ∃ parsed, parseSpiffeUri D = .ok parsed ∧
        (isComponent (nodeIdentifier parsed) = true ∧ isComponent agentType = true ∧
          isComponent instanceId = true) ∧
        hostUri (nodeIdentifier parsed) agentType ++ "/instance/" ++ instanceId = uri := by
  unfold buildInstanceSpiffe
  cases hparse : parseSpiffeUri D with
  | error => simp
  | ok parsed =>
      have hbuilt : (buildInstanceUri (nodeIdentifier parsed) agentType instanceId).toOption =
          some uri ↔ buildInstanceUri (nodeIdentifier parsed) agentType instanceId = .ok uri := by
        cases buildInstanceUri (nodeIdentifier parsed) agentType instanceId <;>
          simp [Except.toOption]
      rw [hbuilt, buildInstanceUri_eq_ok]
      simp

/-- An instance lives at its daemon exactly if the daemon has a legacy identity of its type. -/
theorem instance_of_daemon {parsed : ParsedSpiffeUri} {agentType : String}
    (hparse : parseSpiffeUri D = .ok parsed)
    (hnode : isComponent (nodeIdentifier parsed) = true) (htype : isComponent agentType = true) :
    hostUri (nodeIdentifier parsed) agentType = D ↔
      ∃ stableNodeId, parseSpiffeUri D = .ok (.host stableNodeId agentType none D) := by
  constructor
  · intro h
    refine ⟨nodeIdentifier parsed, parseSpiffeUri_eq_ok.mpr ⟨rfl, ?_, hnode, htype, by simp⟩⟩
    simpa [ParsedSpiffeUri.uri, ParsedSpiffeUri.daemon, ParsedSpiffeUri.tail] using h
  · rintro ⟨stableNodeId, hhost⟩
    obtain rfl := Except.ok.inj (hparse.symm.trans hhost)
    obtain ⟨-, huri, -⟩ := parseSpiffeUri_eq_ok.mp hhost
    simpa [ParsedSpiffeUri.uri, ParsedSpiffeUri.daemon, ParsedSpiffeUri.tail, nodeIdentifier]
      using huri

end ThinkLocal.Inbox
