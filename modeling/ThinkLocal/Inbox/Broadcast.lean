import ThinkLocal.Inbox.InboxApi

/-!
# Broadcasts

A target that ends in `/instance/*` is meant for every instance of a daemon.  The route
normalises the target before it looks for this ending, and no URI with a `*` can be
normalised, so it refuses every broadcast and stores nothing.
-/

namespace ThinkLocal.Inbox

open Foundation Js Messages Spiffe

variable {C : Codec} {P : Platform} {deps : InboxApiDeps} {request : SendRequest}
  {body : SendBody} {draws : Draws} {daemon target : String}

/-- A message for every registered instance is stored, can be listed by the instance and is
reported as delivered. -/
structure FansOut (registry : AgentRegistry) (before : AgentInbox)
    (answer : AgentInbox × SendStep) : Prop where
  stored : ∃ rows, answer.1.messages = before.messages ++ rows ∧
    rows.map InboxMessage.to_agent_instance = registry.list.map fun entry => some entry.instanceId
  listed : ∀ entry ∈ registry.list,
    ∃ row ∈ answer.1.list { forInstance := some entry.instanceId }, row ∉ before.messages
  reported : ∃ message_id sent_at, answer.2 = .done
    (.broadcast message_id sent_at (registry.list.map fun entry => (entry.instanceId, "delivered")))

theorem isBroadcast_append : isBroadcast (daemon ++ "/instance/*") = true := by
  refine decide_eq_true ?_
  rw [String.toList_append]
  exact List.suffix_append _ _

/-- No target of a broadcast parses. -/
theorem normalizeAgentId_of_isBroadcast (h : isBroadcast target = true) :
    ∃ message, normalizeAgentId target = .error message := by
  cases hnormal : normalizeAgentId target with
  | error message => exact ⟨message, rfl⟩
  | ok normalizedTo =>
      obtain ⟨parsed, hparse, -⟩ := normalizeAgentId_eq_ok.mp hnormal
      rw [isBroadcast_of_parse hparse] at h
      cases h

/-- The route refuses a broadcast and leaves the inbox as it is. -/
theorem send_of_broadcast (hbody : request.body = some body)
    (htarget : body.target = .string target) (h : isBroadcast target = true) :
    ∃ code error details,
      send C P deps request draws = (deps.inbox, .done (.error code error details)) := by
  obtain ⟨message, hmessage⟩ := normalizeAgentId_of_isBroadcast h
  have hne : target ≠ "" := by
    rintro rfl
    revert h
    decide
  -- the target is neither missing nor empty, so it is normalised before the broadcast is looked for
  have htext : (body.target.text?.filter fun text => decide (text ≠ "")) = some target := by
    rw [htarget]
    exact Option.filter_eq_some_iff.mpr ⟨rfl, decide_eq_true hne⟩
  unfold send
  dsimp only
  split
  case isTrue => exact ⟨_, _, _, rfl⟩
  case isFalse =>
    split
    case isTrue => exact ⟨_, _, _, rfl⟩
    case isFalse =>
      rw [hbody]
      dsimp only
      rw [htext]
      dsimp only [sendBody]
      split
      case isTrue => exact ⟨_, _, _, rfl⟩
      case isFalse =>
        rw [hmessage]
        exact ⟨_, _, _, rfl⟩

/-- No broadcast ever reaches the instances of a daemon, whatever its identity. -/
theorem broadcast_never_fans_out {registry : AgentRegistry} (hbody : request.body = some body)
    (htarget : body.target = .string (daemon ++ "/instance/*")) :
    ¬ FansOut registry deps.inbox (send C P deps request draws) := by
  intro h
  obtain ⟨message_id, sent_at, hreported⟩ := h.reported
  obtain ⟨code, error, details, hsend⟩ : ∃ code error details,
      send C P deps request draws = (deps.inbox, .done (.error code error details)) :=
    send_of_broadcast hbody htarget isBroadcast_append
  rw [hsend] at hreported
  cases hreported

/-! A daemon with one registered instance, and a text for all of its instances. -/

def hostDaemon : String := "spiffe://thinklocal/host/a/agent/codex"

/-- The registry of the instance `alpha`. -/
def alphaRegistry : AgentRegistry :=
  (postRegister hostDaemon 1 (.new 5000 3 1000) "127.0.0.1"
    (some ⟨.string "codex", .string "alpha", .undefined, .undefined⟩) 0).1

def alphaDeps : InboxApiDeps :=
  { sampleDeps with ownAgentId := hostDaemon, agentRegistry := some alphaRegistry }

/-- The instance gets nothing. -/
theorem broadcast_never_fans_out_alpha :
    ¬ FansOut alphaRegistry alphaDeps.inbox (send silentCodec textPlatform alphaDeps
      (textRequest (hostDaemon ++ "/instance/*")) sampleDraws) :=
  broadcast_never_fans_out rfl rfl

/-- The text for all instances is refused. -/
theorem broadcast_refused :
    parseSpiffeUri hostDaemon = .ok (.host "a" "codex" none hostDaemon) ∧
      (alphaRegistry.list.map AgentRegistryEntry.instanceId) = ["alpha"] ∧
      send silentCodec textPlatform alphaDeps (textRequest (hostDaemon ++ "/instance/*"))
        sampleDraws =
        (.empty, .done (.error 400 ("invalid target SPIFFE-URI: " ++
          "SPIFFE URI has invalid characters in instanceId (must match " ++
          SPIFFE_COMPONENT_REGEX ++ "): " ++ hostDaemon ++ "/instance/*") [])) :=
  ⟨by rfl, by rfl, by rfl⟩

end ThinkLocal.Inbox
