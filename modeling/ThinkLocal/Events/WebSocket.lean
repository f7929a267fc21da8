import ThinkLocal.Foundation.InsertionMap
import ThinkLocal.Foundation.Segments
import ThinkLocal.Foundation.Machine
import ThinkLocal.Js.Json
import ThinkLocal.Js.Text
import ThinkLocal.Js.Utf8

/-!
# Events over WebSockets

The clients of `websocket.ts` with their subscriptions, from the query of the connection and from
later frames, and the events of the bus that they get.  A directed event goes to the clients whose
agent filter names its target; a client that is not local has no such filter.
-/

namespace ThinkLocal.Events

open Foundation Js

/-! ## Filters -/

/-- A query parameter, which may be given more than once. -/
inductive QueryValue
  | text (text : String)
  | texts (texts : List String)
deriving DecidableEq

/-- The filter that a client has set. -/
inductive AgentFilter
  | none
  | text (agent : String)
  | texts (agents : List String)
deriving DecidableEq

/-- A filter that is there and not empty. -/
def AgentFilter.isSet : AgentFilter → Bool
  | none => false
  | text agent => agent ≠ ""
  | texts _ => true

/-- The filter of a query. -/
def AgentFilter.ofQuery : Option QueryValue → AgentFilter
  | .none => none
  | some (.text agent) => text agent
  | some (.texts agents) => texts agents

/-- Is the value of a frame there, and not the empty string? -/
def isPresent : Option Json → Bool
  | none | some .null => false
  | some (.string text) => text ≠ ""
  | some _ => true

/-- The client's view of its subscription; one that is not local has no filter. -/
structure ClientState where
  isOpen : Bool
  subscribedEvents : List String
  agentFilter : AgentFilter
  isLoopback : Bool
  guarded : isLoopback = false → agentFilter.isSet = false

def isLoopbackIp (ip : Option String) : Bool :=
  ip = some "127.0.0.1" ∨ ip = some "::1" ∨ ip = some "::ffff:127.0.0.1"

/-- `rejectsAgentFilter`, of a filter that is there or not. -/
def rejectsAgentFilter (present isLoopback : Bool) : Bool := present && ! isLoopback

structure MeshEvent where
  type : String
  timestamp : String
  data : List (String × Json)

def DIRECTED_EVENT_TYPES : List String := ["agent:wake"]

/-- Is the field of an event the agent of a filter? -/
def AgentFilter.is (filter : AgentFilter) (event : MeshEvent) (key : String) : Bool :=
  match filter, Json.fieldOf event.data key with
  | text agent, some (.string value) => agent = value
  | _, _ => false

def matchesSubscription (event : MeshEvent) (state : ClientState) : Bool :=
  if state.subscribedEvents ≠ [] ∧ event.type ∉ state.subscribedEvents then false
  else if event.type ∈ DIRECTED_EVENT_TYPES then
    state.agentFilter.isSet &&
      (state.agentFilter.is event "instance_id" || state.agentFilter.is event "spiffe_uri")
  else if state.agentFilter.isSet then
    state.agentFilter.is event "from" || state.agentFilter.is event "to" ||
      state.agentFilter.is event "agentId" || state.agentFilter.is event "peer_id"
  else true

/-- A set in the order of its insertions. -/
def addEvent (events : List String) (event : String) : List String :=
  if event ∈ events then events else events ++ [event]

/-- The event types of a query. -/
def queryEvents (subscribe : String) : List String :=
  (((segments ',' subscribe).map trim).filter fun e => e ≠ "").foldl addEvent []

/-- The event types of a frame. -/
def frameEvents : Option Json → List String
  | some (.array items) =>
      (items.filterMap fun
        | .string e => some e
        | _ => none).foldl addEvent []
  | _ => []

/-! ## Clients -/

/-- What is sent to a client. -/
inductive WsMessage
  | connected (events : List String) (agentFilter : AgentFilter) (time : Int)
  | subscribed (events : List String) (agentFilter : AgentFilter) (time : Int)
  | unsubscribed (time : Int)
  | event (event : MeshEvent)

/-- A message that was sent, and whether the client had a filter then. -/
structure Delivery where
  client : Nat
  message : WsMessage
  filtered : Bool

structure Hub where
  clients : InsertionMap Nat ClientState
  sent : List Delivery

/-- Sends to a socket that is open. -/
def Hub.send (hub : Hub) (id : Nat) (client : ClientState) (message : WsMessage) : Hub :=
  if client.isOpen then { hub with sent := ⟨id, message, client.agentFilter.isSet⟩ :: hub.sent }
  else hub

def Hub.put (hub : Hub) (id : Nat) (client : ClientState) : Hub :=
  { hub with clients := hub.clients.set id client }

structure ConnectQuery where
  subscribe : Option QueryValue
  agent : Option QueryValue

/-- Is the filter of a query there, and not the empty string? -/
def ConnectQuery.filters (query : ConnectQuery) : Bool := (AgentFilter.ofQuery query.agent).isSet

/-- The types to subscribe to; a parameter that is given twice throws. -/
def ConnectQuery.events (query : ConnectQuery) : Option (List String) :=
  match query.subscribe with
  | none => some []
  | some (.text subscribe) => some (queryEvents subscribe)
  | some (.texts _) => none

/-- The handler of a connection. -/
def connect (hub : Hub) (id : Nat) (ip : Option String) (query : ConnectQuery) (time : Int) : Hub :=
  if h : rejectsAgentFilter query.filters (isLoopbackIp ip) then hub
  else
    match query.events with
    | none => hub
    | some events =>
        let client : ClientState :=
          { isOpen := true
            subscribedEvents := events
            agentFilter := AgentFilter.ofQuery query.agent
            isLoopback := isLoopbackIp ip
            guarded := fun hlocal => by
              simpa [rejectsAgentFilter, ConnectQuery.filters, hlocal] using h }
        (hub.put id client).send id client (.connected events client.agentFilter time)

/-- The filter of a frame: only a string changes it. -/
def frameFilter (agent : Option Json) (current : AgentFilter) : AgentFilter :=
  match agent with
  | some (.string agent) => .text agent
  | _ => current

theorem isSet_frameFilter {agent : Option Json} {current : AgentFilter}
    (hagent : isPresent agent = false) (hcurrent : current.isSet = false) :
    (frameFilter agent current).isSet = false := by
  unfold frameFilter
  split
  · exact hagent
  · exact hcurrent

/-- The handler of a frame that subscribes. -/
def subscribe (hub : Hub) (id : Nat) (client : ClientState) (fields : List (String × Json))
    (time : Int) : Hub :=
  let agent := Json.fieldOf fields "agent"
  if h : rejectsAgentFilter (isPresent agent) client.isLoopback then
    hub.put id { client with isOpen := false }
  else
    let client : ClientState :=
      { client with
        subscribedEvents := frameEvents (Json.fieldOf fields "events")
        agentFilter := frameFilter agent client.agentFilter
        guarded := fun hlocal => isSet_frameFilter
          (by simpa [rejectsAgentFilter, hlocal] using h) (client.guarded hlocal) }
    (hub.put id client).send id client
      (.subscribed client.subscribedEvents client.agentFilter time)

def unsubscribe (hub : Hub) (id : Nat) (client : ClientState) (time : Int) : Hub :=
  let client : ClientState :=
    { client with subscribedEvents := [], agentFilter := .none, guarded := fun _ => rfl }
  (hub.put id client).send id client (.unsubscribed time)

/-- The text of a field. -/
def fieldText (fields : List (String × Json)) (key : String) : Option String :=
  match Json.fieldOf fields key with
  | some (.string text) => some text
  | _ => none

/-- The handler of a frame with its bytes; what is no JSON is ignored. -/
def frame (hub : Hub) (id : Nat) (raw : Bytes) (time : Int) : Hub :=
  match hub.clients.get id, Json.parse (String.ofList (decodeUtf8 raw)) with
  | some client, some (.object fields) =>
      if fieldText fields "type" = some "subscribe" then subscribe hub id client fields time
      else if fieldText fields "type" = some "unsubscribe" then unsubscribe hub id client time
      else hub
  | _, _ => hub

/-- The clients that get an event. -/
def recipients (hub : Hub) (event : MeshEvent) : List (Nat × ClientState) :=
  hub.clients.entries.filter fun p => p.2.isOpen && matchesSubscription event p.2

def broadcast (hub : Hub) (event : MeshEvent) : Hub :=
  { hub with
    sent := ((recipients hub event).map fun p =>
      ⟨p.1, .event event, p.2.agentFilter.isSet⟩) ++ hub.sent }

/-! ## Runs -/

inductive WsAction
  | connect (id : Nat) (ip : Option String) (query : ConnectQuery) (time : Int)
  | frame (id : Nat) (raw : Bytes) (time : Int)
  /-- A socket is not open any more. -/
  | closing (id : Nat)
  /-- A socket has closed, or had an error. -/
  | disconnect (id : Nat)
  | event (event : MeshEvent)
  | shutdown

/-- A connection has a socket of its own. -/
def step (hub : Hub) : WsAction → Hub
  | .connect id ip query time =>
      if hub.clients.has id then hub else connect hub id ip query time
  | .frame id raw time => frame hub id raw time
  | .closing id =>
      match hub.clients.get id with
      | none => hub
      | some client => hub.put id { client with isOpen := false }
  | .disconnect id => { hub with clients := hub.clients.delete id }
  | .event event => broadcast hub event
  | .shutdown => { hub with clients := .empty }

/-- The server after a sequence of actions. -/
def run (actions : List WsAction) : Hub := actions.foldl step ⟨.empty, []⟩

/-! ## Directed events -/

variable {hub hub' : Hub} {id : Nat} {client : ClientState} {event : MeshEvent} {raw : Bytes}

/-- A filter is the text of a field. -/
theorem is_iff {filter : AgentFilter} {key : String} :
    filter.is event key = true ↔
      ∃ agent, filter = .text agent ∧ fieldText event.data key = some agent := by
  unfold AgentFilter.is fieldText
  cases filter with
  | text agent =>
      cases Json.fieldOf event.data key with
      | none => simp
      | some value => cases value <;> simp [eq_comm]
  | none => simp
  | texts agents => simp

/-- A wake-up matches a filter that is not empty and names the instance or its URI. -/
theorem matches_wake (htype : event.type = "agent:wake") (client : ClientState) :
    matchesSubscription event client = true ↔
      (client.subscribedEvents = [] ∨ "agent:wake" ∈ client.subscribedEvents) ∧
        ∃ agent, agent ≠ "" ∧ client.agentFilter = .text agent ∧
          (fieldText event.data "instance_id" = some agent ∨
            fieldText event.data "spiffe_uri" = some agent) := by
  have hdirected : event.type ∈ DIRECTED_EVENT_TYPES := by
    rw [htype]
    decide
  unfold matchesSubscription
  by_cases htypes : client.subscribedEvents ≠ [] ∧ event.type ∉ client.subscribedEvents
  · rw [if_pos htypes, htype] at *
    simp [htypes.1, htypes.2]
  · rw [if_neg htypes, if_pos hdirected, Bool.and_eq_true, Bool.or_eq_true, is_iff, is_iff]
    -- an empty subscription is one to all types
    have hsubscribed : client.subscribedEvents = [] ∨ "agent:wake" ∈ client.subscribedEvents := by
      rw [htype] at htypes
      tauto
    constructor
    · rintro ⟨hset, ⟨agent, hfilter, hfield⟩ | ⟨agent, hfilter, hfield⟩⟩
      · rw [hfilter] at hset
        exact ⟨hsubscribed, agent, of_decide_eq_true hset, hfilter, .inl hfield⟩
      · rw [hfilter] at hset
        exact ⟨hsubscribed, agent, of_decide_eq_true hset, hfilter, .inr hfield⟩
    · rintro ⟨-, agent, hne, hfilter, hfield⟩
      refine ⟨by rw [hfilter]; exact decide_eq_true hne, ?_⟩
      exact hfield.imp (fun h => ⟨agent, hfilter, h⟩) fun h => ⟨agent, hfilter, h⟩

theorem mem_recipients :
    (id, client) ∈ recipients hub event ↔
      hub.clients.get id = some client ∧ client.isOpen = true ∧
        matchesSubscription event client = true := by
  rw [recipients, List.mem_filter, InsertionMap.get_eq_some_iff, Bool.and_eq_true]

/-! ## Frames that change nothing -/

/-- What a client is subscribed to. -/
def subscription (hub : Hub) (id : Nat) : Option (List String × AgentFilter) :=
  (hub.clients.get id).map fun client => (client.subscribedEvents, client.agentFilter)

/-- A frame that sets a filter for a client that is not local. -/
def IsRefused (hub : Hub) (id : Nat) (raw : Bytes) : Prop :=
  ∃ client fields, hub.clients.get id = some client ∧
    Json.parse (String.ofList (decodeUtf8 raw)) = some (.object fields) ∧
      fieldText fields "type" = some "subscribe" ∧
        rejectsAgentFilter (isPresent (Json.fieldOf fields "agent")) client.isLoopback = true

theorem frame_of_not_json (time : Int) (h : Json.parse (String.ofList (decodeUtf8 raw)) = none) :
    frame hub id raw time = hub := by
  rw [frame, h]
  cases hub.clients.get id <;> rfl

/-- Closing a socket changes no subscription. -/
theorem subscription_put_closed (hget : hub.clients.get id = some client) (other : Nat) :
    subscription (hub.put id { client with isOpen := false }) other = subscription hub other := by
  unfold subscription Hub.put
  rw [InsertionMap.get_set]
  split_ifs with heq
  · rw [heq, hget]
    rfl
  · rfl

theorem subscription_of_refused (time : Int) (h : IsRefused hub id raw) (other : Nat) :
    subscription (frame hub id raw time) other = subscription hub other := by
  obtain ⟨client, fields, hget, hparse, htype, hrejects⟩ := h
  have hframe : frame hub id raw time = hub.put id { client with isOpen := false } := by
    rw [frame, hget, hparse]
    dsimp only
    rw [if_pos htype, subscribe]
    exact dif_pos hrejects
  rw [hframe, subscription_put_closed hget]

/-! ## Without the wake-ups -/

/-- A step that reads the clients only, and adds to what was sent. -/
def Appends (f : Hub → Hub) : Prop :=
  ∀ hub, f hub = ⟨(f ⟨hub.clients, []⟩).clients, (f ⟨hub.clients, []⟩).sent ++ hub.sent⟩

theorem appends_put_send (id : Nat) (client : ClientState) (message : WsMessage) :
    Appends fun hub => (hub.put id client).send id client message := by
  intro hub
  unfold Hub.send
  split_ifs <;> rfl

theorem appends_connect (id : Nat) (ip : Option String) (query : ConnectQuery) (time : Int) :
    Appends fun hub => connect hub id ip query time := by
  intro hub
  by_cases h : rejectsAgentFilter query.filters (isLoopbackIp ip) = true
  · simp only [connect, dif_pos h]
    rfl
  · simp only [connect, dif_neg h]
    cases query.events with
    | none => rfl
    | some events => exact appends_put_send id _ _ hub

theorem appends_subscribe (id : Nat) (client : ClientState) (fields : List (String × Json))
    (time : Int) : Appends fun hub => subscribe hub id client fields time := by
  intro hub
  by_cases h : rejectsAgentFilter (isPresent (Json.fieldOf fields "agent")) client.isLoopback = true
  · simp only [subscribe, dif_pos h]
    rfl
  · simp only [subscribe, dif_neg h]
    exact appends_put_send id _ _ hub

theorem appends_frame (id : Nat) (raw : Bytes) (time : Int) :
    Appends fun hub => frame hub id raw time := by
  intro hub
  simp only [frame]
  cases hub.clients.get id with
  | none => rfl
  | some client =>
      cases Json.parse (String.ofList (decodeUtf8 raw)) with
      | none => rfl
      | some value =>
          cases value with
          | object fields =>
              dsimp only
              split_ifs
              · exact appends_subscribe id client fields time hub
              · exact appends_put_send id _ _ hub
              · rfl
          | null | boolean | number | string | array => rfl

/-- What a step makes of the clients, and what it sends. -/
theorem appends_step (action : WsAction) : Appends fun hub => step hub action := by
  intro hub
  cases action with
  | connect id ip query time =>
      simp only [step]
      split_ifs
      · rfl
      · exact appends_connect id ip query time hub
  | frame id raw time => exact appends_frame id raw time hub
  | closing id =>
      simp only [step]
      cases hub.clients.get id <;> rfl
  | disconnect id => rfl
  | event event =>
      simp only [step, broadcast, recipients, List.append_nil]
  | shutdown => rfl

/-- What clients without a filter have got. -/
def unfilteredView (hub : Hub) : InsertionMap Nat ClientState × List Delivery :=
  (hub.clients, hub.sent.filter fun d => ! d.filtered)

def isWake : WsAction → Bool
  | .event event => event.type = "agent:wake"
  | _ => false

theorem unwinding_wake : Unwinding step isWake unfilteredView where
  hidden_step hub action hwake := by
    cases action with
    | event event =>
        have htype : event.type = "agent:wake" := of_decide_eq_true hwake
        have hnone : ((recipients hub event).map fun p =>
            (⟨p.1, .event event, p.2.agentFilter.isSet⟩ : Delivery)).filter
              (fun d => ! d.filtered) = [] := by
          -- a wake-up goes to clients with a filter only, and those are hidden
          rw [List.filter_eq_nil_iff]
          intro d hd
          obtain ⟨⟨id, client⟩, hmem, rfl⟩ := List.mem_map.mp hd
          obtain ⟨-, agent, hne, hfilter, -⟩ :=
            (matches_wake htype client).mp (mem_recipients.mp hmem).2.2
          simp [hfilter, AgentFilter.isSet, hne]
        rw [unfilteredView, unfilteredView, step, broadcast, List.filter_append, hnone]
        rfl
    | connect | frame | closing | disconnect | shutdown => cases hwake
  visible_step hub hub' action _ hview := by
    obtain ⟨hclients, hsent⟩ := Prod.mk.inj hview
    have hhub := appends_step action hub
    have hhub' := appends_step action hub'
    dsimp only at hhub hhub'
    rw [hhub, hhub', hclients, unfilteredView, unfilteredView, List.filter_append,
      List.filter_append, hsent]

/-! ## The claims of a run -/

/-- After any actions: a client that is not local has no filter; a frame that is refused, or is no
JSON, changes no subscription; a wake-up goes exactly to the open clients whose filter names its
target and that listen to it, to each once; and without the wake-ups of the run the clients, and what
those without a filter have got, are the same. -/
theorem directed_events (actions : List WsAction) :
    (∀ id client, (run actions).clients.get id = some client → client.isLoopback = false →
        client.agentFilter.isSet = false) ∧
      (∀ id raw time other,
        Json.parse (String.ofList (decodeUtf8 raw)) = none ∨ IsRefused (run actions) id raw →
          subscription (step (run actions) (.frame id raw time)) other =
            subscription (run actions) other) ∧
      (∀ event, event.type = "agent:wake" →
        (step (run actions) (.event event)).sent =
            ((recipients (run actions) event).map fun p =>
              ⟨p.1, .event event, p.2.agentFilter.isSet⟩) ++ (run actions).sent ∧
          ((recipients (run actions) event).map Prod.fst).Nodup ∧
          ∀ id client, (id, client) ∈ recipients (run actions) event ↔
            (run actions).clients.get id = some client ∧ client.isOpen = true ∧
              (client.subscribedEvents = [] ∨ "agent:wake" ∈ client.subscribedEvents) ∧
              ∃ agent, agent ≠ "" ∧ client.agentFilter = .text agent ∧
                (fieldText event.data "instance_id" = some agent ∨
                  fieldText event.data "spiffe_uri" = some agent)) ∧
      unfilteredView (run actions) = unfilteredView (run (purge isWake actions)) := by
  refine ⟨fun id client _ hlocal => client.guarded hlocal, fun id raw time other h => ?_,
    fun event htype => ⟨rfl, ?_, fun id client => ?_⟩, ?_⟩
  · rcases h with hparse | hrefused
    · rw [step, frame_of_not_json time hparse]
    · exact subscription_of_refused time hrefused other
  · exact (run actions).clients.nodup.sublist (List.filter_sublist.map Prod.fst)
  · rw [mem_recipients, matches_wake htype]
  · exact unwinding_wake.view_run actions rfl

/-- A supervisor on the same host with the filter of its instance, and a dashboard elsewhere. -/
def twoClients : List WsAction :=
  [.connect 1 (some "127.0.0.1") ⟨some (.text "agent:wake, inbox:new"), some (.text "sess-1")⟩ 10,
    .connect 2 (some "10.0.0.5") ⟨none, none⟩ 11]

def wakeOf (instance_id : String) : MeshEvent :=
  ⟨"agent:wake", "2026-05-01T10:00:00.000Z", [("instance_id", .string instance_id)]⟩

theorem directed_events_twoClients :
    ∃ supervisor dashboard,
      (run twoClients).clients.get 2 = some dashboard ∧ dashboard.agentFilter.isSet = false ∧
        subscription (step (run twoClients) (.frame 2 [120] 12)) 2 =
          subscription (run twoClients) 2 ∧
        (1, supervisor) ∈ recipients (run twoClients) (wakeOf "sess-1") ∧
        (2, dashboard) ∉ recipients (run twoClients) (wakeOf "sess-1") := by
  have hsupervisor : ((run twoClients).clients.get 1).map (fun client =>
      (client.isOpen, client.agentFilter, client.subscribedEvents)) =
        some (true, .text "sess-1", ["agent:wake", "inbox:new"]) := by
    decide +kernel
  have hdashboard : ((run twoClients).clients.get 2).map (fun client => client.isLoopback) =
      some false := by
    decide +kernel
  obtain ⟨supervisor, hget1, hfacts⟩ := Option.map_eq_some_iff.mp hsupervisor
  obtain ⟨dashboard, hget2, hremote⟩ := Option.map_eq_some_iff.mp hdashboard
  obtain ⟨hopen, hfilter, hevents⟩ : supervisor.isOpen = true ∧
      supervisor.agentFilter = .text "sess-1" ∧
        supervisor.subscribedEvents = ["agent:wake", "inbox:new"] := by
    simpa using hfacts
  obtain ⟨hguarded, hframes, hwake, -⟩ := directed_events twoClients
  obtain ⟨-, -, hrecipients⟩ := hwake (wakeOf "sess-1") rfl
  -- a client that is not on the loopback never gets a filter
  have hunset := hguarded 2 dashboard hget2 hremote
  refine ⟨supervisor, dashboard, hget2, hunset, hframes 2 [120] 12 2 (.inl (by decide +kernel)), ?_, ?_⟩
  · refine (hrecipients 1 supervisor).mpr ⟨hget1, hopen, .inr (by rw [hevents]; decide), "sess-1", ?_⟩
    exact ⟨by decide, hfilter, .inl (by decide)⟩
  · intro hmem
    obtain ⟨-, -, -, agent, hne, hagent, -⟩ := (hrecipients 2 dashboard).mp hmem
    rw [hagent, AgentFilter.isSet, decide_eq_false_iff_not] at hunset
    exact hunset hne

end ThinkLocal.Events
