import ThinkLocal.Js.Text
import ThinkLocal.Js.Value
import ThinkLocal.Registry.CapabilityRegistry

/-!
# Shared MCP servers

`mcp-service-registry.ts`: the execution tiers, how they are derived from the
permissions of a capability and from the payload of a call, and which capabilities
serve a server.  A result `none` of type `Option` is an exception.

Texts are mapped to lower case by a parameter; what is proved holds for every such
mapping.
-/

namespace ThinkLocal.Mcp

open Js (trim includes)

open Registry (CapabilityHealth Json)

inductive McpExecutionTier
  | self
  | gate
  | consensus
  deriving DecidableEq, Repr

namespace McpExecutionTier

def rank : McpExecutionTier → Nat
  | self => 0
  | gate => 1
  | consensus => 2

theorem rank_injective : Function.Injective rank := by
  intro a b h
  cases a <;> cases b <;> first | rfl | cases h

instance : LinearOrder McpExecutionTier := LinearOrder.lift' rank rank_injective

end McpExecutionTier

open McpExecutionTier

def maxTier (a b : McpExecutionTier) : McpExecutionTier := if b.rank ≤ a.rank then a else b

theorem maxTier_eq_max (a b : McpExecutionTier) : maxTier a b = max a b := by
  cases a <;> cases b <;> rfl

/-! ## Tiers of permissions -/

def MCP_CATEGORY : String := "mcp"

def MCP_SKILL_PREFIX : String := "mcp:"

def CONSENSUS_TOKENS : List String :=
  ["admin", "delete", "destroy", "remove", "reboot", "shutdown", "wipe", "factory"]

def GATE_TOKENS : List String :=
  ["write", "credential", "secret", "control", "set", "configure", "update", "create", "send",
    "actuate", "switch"]

def SELF_TOKENS : List String :=
  ["read", "query", "list", "get", "view", "convert", "render", "search", "status"]

def LOW_TRUST_GATE_THRESHOLD : Rat := 2

section LowerCase

variable (toLowerCase : String → String)

/-- The tier of a token, `none` for an unknown one. -/
def classify (token : String) : Option McpExecutionTier :=
  let t := toLowerCase token
  if CONSENSUS_TOKENS.any (includes t ·) then some .consensus
  else if GATE_TOKENS.any (includes t ·) then some .gate
  else if SELF_TOKENS.any (includes t ·) then some .self
  else none

def canonicalizeServerName (raw : String) : String := toLowerCase (trim raw)

/-- A number; `NaN` and the infinities are not finite. -/
inductive TrustLevel
  | finite (value : Rat)
  | notFinite
  deriving DecidableEq, Repr

/-- A replicated capability.  Permissions over which there is no iteration, and a permission that is no
text, are `none`; permissions that are a text are the list of its characters. -/
structure Capability where
  skill_id : String
  version : String
  description : String
  agent_id : String
  health : CapabilityHealth
  trust_level : TrustLevel
  category : String
  permissions : Option (List (Option String))

/-- The loop of `deriveExecutionTier`. -/
def permissionTier (tier : McpExecutionTier) : List (Option String) → Option McpExecutionTier
  | [] => some tier
  | none :: _ => none
  | some p :: rest => permissionTier (maxTier tier ((classify toLowerCase p).getD .gate)) rest

def deriveExecutionTier (permissions : Option (List (Option String))) (trustLevel : TrustLevel) :
    Option McpExecutionTier :=
  permissions.bind fun permissions =>
    (permissionTier toLowerCase .self permissions).map fun tier =>
      let normalizedTrust :=
        match trustLevel with
        | .finite value => value
        | .notFinite => LOW_TRUST_GATE_THRESHOLD - 1
      if tier = .self ∧ normalizedTrust < LOW_TRUST_GATE_THRESHOLD then .gate else tier

/-! ## Tiers of calls -/

def DESTRUCTIVE_VERBS : List String :=
  ["delete", "destroy", "remove", "wipe", "factory", "reset", "revoke", "purge", "forget",
    "reboot", "shutdown", "drop", "clear", "flush", "erase"]

def WRITE_VERBS : List String :=
  ["create", "update", "set", "add", "enable", "disable", "block", "unblock", "authorize",
    "deauthorize", "reauthorize", "restart", "adopt", "provision", "assign", "move", "rename",
    "configure", "send", "actuate", "switch", "apply", "start", "stop", "kick", "ban", "write",
    "edit", "modify", "grant", "deny", "put", "post", "patch", "upsert", "toggle", "trigger",
    "run", "exec", "execute", "invoke"]

def READ_VERBS : List String :=
  ["list", "get", "describe", "read", "show", "search", "query", "find", "stat", "stats",
    "count", "fetch", "view", "status", "info", "inspect", "export", "ls"]

/-- `payload.method === 'tools/call'`, for an object. -/
def isToolCall (payload : Option Json) : Bool :=
  Json.isString (Json.propertyOrUndefined payload "method") "tools/call"

/-- `payload.params?.name`, if it is a text. -/
def callName (payload : Option Json) : Option String :=
  match Json.propertyOrUndefined (Json.propertyOrUndefined payload "params") "name" with
  | some (.string name) => some name
  | _ => none

/-- The tier of a tool by the verb at the start of its name. -/
def verbTier (name : String) : McpExecutionTier :=
  let verb := String.ofList
    ((toLowerCase name).toList.takeWhile fun c => 'a' ≤ c && c ≤ 'z')
  if verb ∈ DESTRUCTIVE_VERBS then .consensus
  else if verb ∈ WRITE_VERBS then .gate
  else if verb ∈ READ_VERBS then .self
  else .gate

/-- The tier of a call of a tool by its name. -/
def namedToolTier (name : Option String) : McpExecutionTier :=
  match name with
  | none => .gate
  | some name => if trim name = "" then .gate else verbTier toLowerCase name

def deriveToolTier (payload : Option Json) : McpExecutionTier :=
  if isToolCall payload then namedToolTier toLowerCase (callName payload) else .self

def deriveToolName (payload : Option Json) : String :=
  if isToolCall payload then ((callName payload).map trim).getD "" else ""

structure ServerToolClasses where
  readOnly : List String
  consensus : Option (List String)
  sensitive : Option (List String)

def UNIFI_READ_ONLY : List String :=
  ["get_acl_rule", "get_application_info", "get_client", "get_device", "get_device_stats",
    "get_dns_policy", "get_firewall_policy", "get_firewall_zone", "get_lag", "get_mc_lag_domain",
    "get_switch_stack", "get_traffic_matching_list",
    "list_acl_rules", "list_clients", "list_devices", "list_dns_policies",
    "list_firewall_policies", "list_firewall_zones", "list_lags", "list_mc_lag_domains",
    "list_pending_devices", "list_sites", "list_switch_stacks", "list_traffic_matching_lists"]

def UNIFI_SENSITIVE : List String :=
  ["get_wlan", "list_wlans", "get_voucher", "list_vouchers", "list_radius_profiles",
    "list_vpn_servers", "list_vpn_tunnels", "list_wans", "get_network", "list_networks"]

/-- What `SERVER_TOOL_CLASSES[name]` finds. -/
inductive ToolClasses
  | ungoverned
  | governed (classes : ServerToolClasses)
  /-- A property of `Object.prototype`, which has no `readOnly`. -/
  | inherited

/-- The names of the properties of `Object.prototype`. -/
def objectPrototypeNames : List String :=
  ["constructor", "__defineGetter__", "__defineSetter__", "hasOwnProperty", "__lookupGetter__",
    "__lookupSetter__", "isPrototypeOf", "propertyIsEnumerable", "toString", "valueOf",
    "__proto__", "toLocaleString"]

def SERVER_TOOL_CLASSES (name : String) : ToolClasses :=
  if name = "unifi" then
    .governed { readOnly := UNIFI_READ_ONLY, consensus := none, sensitive := some UNIFI_SENSITIVE }
  else if name ∈ objectPrototypeNames then .inherited
  else .ungoverned

/-- The tier of a call of a governed server. -/
def governedTier (classes : ServerToolClasses) (name : String) : McpExecutionTier :=
  if name ≠ "" ∧ name ∈ classes.readOnly then .self
  else if name ≠ "" ∧ classes.consensus.any (name ∈ ·) then .consensus
  else maxTier .gate (namedToolTier toLowerCase (some name))

def deriveToolTierForServer (server : String) (payload : Option Json) :
    Option McpExecutionTier :=
  match SERVER_TOOL_CLASSES (canonicalizeServerName toLowerCase server) with
  | .ungoverned => some (deriveToolTier toLowerCase payload)
  | .governed classes =>
      if isToolCall payload then some (governedTier toLowerCase classes (deriveToolName payload))
      else some (deriveToolTier toLowerCase payload)
  | .inherited =>
      if isToolCall payload then
        -- `classes.readOnly.has(name)` throws; an empty name is not looked up.
        if deriveToolName payload ≠ "" then none
        else some (maxTier .gate (namedToolTier toLowerCase (some "")))
      else some (deriveToolTier toLowerCase payload)

inductive GateReason
  | invalidCall
  | destructiveVerb
  | writeVerb
  | sensitiveGoverned
  | unlistedGoverned
  deriving DecidableEq, Repr

/-- `classes && classes.sensitive?.has(name)`; what is inherited has no `sensitive` either. -/
def ToolClasses.isSensitive (name : String) : ToolClasses → Bool
  | governed classes => classes.sensitive.any (name ∈ ·)
  | ungoverned | inherited => false

/-- `classifyGateReason`; `some none` is `null`. -/
def classifyGateReason (server : String) (payload : Option Json) : Option (Option GateReason) :=
  (deriveToolTierForServer toLowerCase server payload).map fun tier =>
    if tier = .self then none
    else
      let name := deriveToolName payload
      if isToolCall payload ∧ name = "" then some .invalidCall
      else if name ≠ "" ∧
          (SERVER_TOOL_CLASSES (canonicalizeServerName toLowerCase server)).isSensitive name then
        some .sensitiveGoverned
      else
        match if name = "" then .gate else namedToolTier toLowerCase (some name) with
        | .consensus => some .destructiveVerb
        | .gate => some .writeVerb
        | .self => some .unlistedGoverned

/-! ## Resolution -/

structure McpResolution where
  agent_id : String
  skill_id : String
  description : String
  version : String
  trust_level : TrustLevel
  health : CapabilityHealth
  execution_tier : McpExecutionTier

/-- `mcp:<server>`. -/
def skillId (server : String) : String :=
  MCP_SKILL_PREFIX ++ canonicalizeServerName toLowerCase server

def resolveMcp (server : String) : List Capability → Option (List McpResolution)
  | [] => some []
  | cap :: rest =>
      if cap.category ≠ MCP_CATEGORY ∨ cap.skill_id ≠ skillId toLowerCase server ∨
          cap.health = .offline then
        resolveMcp server rest
      else
        (deriveExecutionTier toLowerCase cap.permissions cap.trust_level).bind fun tier =>
          (resolveMcp server rest).map fun out =>
            { agent_id := cap.agent_id, skill_id := cap.skill_id
              description := cap.description, version := cap.version
              trust_level := cap.trust_level, health := cap.health
              execution_tier := tier } :: out

end LowerCase

end ThinkLocal.Mcp
