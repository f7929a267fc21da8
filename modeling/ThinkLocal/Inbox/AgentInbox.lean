import Mathlib.Data.String.Basic
import ThinkLocal.Foundation.NewestFirst
import ThinkLocal.Messages.Messages
import ThinkLocal.Spiffe.SpiffeUri

/-!
# The inbox

`AgentInbox` of `agent-inbox.ts`: one table of messages, in which a message id occurs once.
A payload comes undecoded from another node, so its fields have any type.  Texts are bound
to the columns of the table as they are; what the driver of the database makes of other
arguments is given from outside.
-/

namespace ThinkLocal.Inbox

open Foundation Js Messages Spiffe

/-! ## Payloads -/

structure AgentMessagePayload where
  message_id : Data
  /-- The field `to`. -/
  target : Data
  subject : Data
  body : Data
  in_reply_to : Data
  sent_at : Data

namespace AgentMessagePayload

/-- The payload as it is encoded. -/
def data (payload : AgentMessagePayload) : Data :=
  .object [("message_id", payload.message_id), ("to", payload.target), ("subject", payload.subject),
    ("body", payload.body), ("in_reply_to", payload.in_reply_to), ("sent_at", payload.sent_at)]

/-- The payload of a decoded envelope; `none` if reading its fields throws. -/
def ofData (payload : Data) : Option AgentMessagePayload := do
  return {
    message_id := ← payload.get "message_id"
    target := ← payload.get "to"
    subject := ← payload.get "subject"
    body := ← payload.get "body"
    in_reply_to := ← payload.get "in_reply_to"
    sent_at := ← payload.get "sent_at" }

theorem ofData_data (payload : AgentMessagePayload) : ofData payload.data = some payload := rfl

end AgentMessagePayload

/-! ## The table -/

/-- What a text column holds. -/
inductive Cell
  | null
  | text (text : String)
  | blob (content : Bytes)
deriving DecidableEq

/-- What the inbox takes from its platform. -/
structure Platform where
  /-- `value > bound`, `none` where it throws. -/
  greater : Data → Nat → Option Bool
  /-- The cells for the arguments of subject, body, reference and time when not all of them are
  texts; `none` where the driver throws. -/
  bindOther : List Data → Option (List Cell)
  sha256Hex : String → String

inductive OrderContext
  | valid (signedBytes : Bytes) (signerSpiffe signerKeyid signerPubkey orderNonce : String)
  | invalid

/-- The columns of signed orders. -/
structure OrderColumns where
  is_order : Nat := 0
  signed_bytes : Option Bytes := none
  signer_spiffe : Option String := none
  signer_keyid : Option String := none
  signer_pubkey : Option String := none
  order_nonce : Option String := none
  verified_at : Option String := none
  verify_verdict : Option String := none
  trust_status : Option String := none
deriving DecidableEq

def orderColumns (receivedAt : String) : Option OrderContext → OrderColumns
  | none => {}
  | some .invalid => { verified_at := some receivedAt, verify_verdict := some "INVALID" }
  | some (.valid signedBytes signerSpiffe signerKeyid signerPubkey orderNonce) =>
      { is_order := 1
        signed_bytes := some signedBytes
        signer_spiffe := some signerSpiffe
        signer_keyid := some signerKeyid
        signer_pubkey := some signerPubkey
        order_nonce := some orderNonce
        verified_at := some receivedAt
        verify_verdict := some "VALID"
        trust_status := some "unknown" }

structure InboxMessage where
  id : Nat
  message_id : String
  from_agent : String
  to_agent : String
  to_agent_instance : Option String
  subject : Cell
  body : Cell
  in_reply_to : Cell
  sent_at : Cell
  received_at : String
  read_at : Option String := none
  archived : Bool := false
  order : OrderColumns := {}
deriving DecidableEq

/-- The rows in the order of their insertion. -/
structure AgentInbox where
  messages : List InboxMessage
  /-- The next id that the table gives. -/
  nextId : Nat
  unique : (messages.map InboxMessage.message_id).Nodup

namespace AgentInbox

def empty : AgentInbox := ⟨[], 1, List.nodup_nil⟩

def findByMessageId (inbox : AgentInbox) (messageId : String) : Option InboxMessage :=
  inbox.messages.find? fun row => row.message_id = messageId

theorem findByMessageId_eq_none {inbox : AgentInbox} {messageId : String} :
    inbox.findByMessageId messageId = none ↔
      messageId ∉ inbox.messages.map InboxMessage.message_id := by
  simp [findByMessageId]

theorem findByMessageId_eq_some {inbox : AgentInbox} {messageId : String} {row : InboxMessage}
    (h : inbox.findByMessageId messageId = some row) :
    row ∈ inbox.messages ∧ row.message_id = messageId :=
  ⟨List.mem_of_find?_eq_some h, by simpa using List.find?_some h⟩

/-- Throws if a column without null gets it or if the message id is taken. -/
def insert (inbox : AgentInbox) (row : InboxMessage) : Option AgentInbox :=
  if row.body = .null ∨ row.sent_at = .null then none
  else if hnew : row.message_id ∈ inbox.messages.map InboxMessage.message_id then none
  else
    some
      { messages := inbox.messages ++ [row]
        nextId := inbox.nextId + 1
        unique := by
          rw [List.map_append, List.map_singleton]
          exact List.nodup_append.mpr
            ⟨inbox.unique, List.nodup_singleton _, by
              intro id hid id' hid'
              rw [List.mem_singleton.mp hid']
              rintro rfl
              exact hnew hid⟩ }

end AgentInbox

/-! ## Storing -/

def MAX_MESSAGE_BYTES : Nat := 64 * 1024

def MAX_SUBJECT_LENGTH : Nat := 200

inductive StoreResult
  | delivered (inbox_id : Nat)
  | duplicate (inbox_id : Nat)
  | rejected (reason : String)
deriving DecidableEq

def StoreResult.status : StoreResult → String
  | delivered _ => "delivered"
  | duplicate _ => "duplicate"
  | rejected _ => "rejected"

/-- The text of a body; `none` where it has no length or `JSON.stringify` throws. -/
def bodyText : Data → Option String
  | .string text => some text
  | value => value.stringify.join

/-- The cell of a text or of a missing value, for which null is bound. -/
def textCell : Data → Option Cell
  | .string text => some (.text text)
  | .undefined | .null => some .null
  | _ => none

/-- What a message is stored as `to_agent` and `to_agent_instance`. -/
def storedTarget : Data → Except String (String × Option String)
  | .string uri => do
      let normalizedTo ← normalizeAgentId uri
      let toInstance ← getAgentInstance uri
      return (normalizedTo, toInstance)
  | _ => .error "SPIFFE URI must be a non-empty string"

variable (P : Platform)

/-- `value && value.length > 200`; `none` where it throws. -/
def subjectTooLong (subject : Data) : Option Bool :=
  if subject.truthy then subject.lengthExceeds P.greater MAX_SUBJECT_LENGTH else some false

/-- The cells of subject, body, reference and time. -/
def bind (arguments : List Data) : Option (List Cell) :=
  match arguments.mapM textCell with
  | some cells => some cells
  | none => P.bindOther arguments

namespace AgentInbox

def insertPayload (inbox : AgentInbox) (fromAgent : String) (payload : AgentMessagePayload)
    (bodyStr messageId normalizedTo : String) (toInstance : Option String)
    (order : Option OrderContext) (receivedAt : String) : Option AgentInbox :=
  match bind P [payload.subject, .string bodyStr, payload.in_reply_to, payload.sent_at] with
  | some [subject, body, in_reply_to, sent_at] =>
      inbox.insert
        { id := inbox.nextId
          message_id := messageId
          from_agent := fromAgent
          to_agent := normalizedTo
          to_agent_instance := toInstance
          subject := subject
          body := body
          in_reply_to := in_reply_to
          sent_at := sent_at
          received_at := receivedAt
          order := orderColumns receivedAt order }
  | _ => none

/-- The steps after the limits. -/
def storeChecked (inbox : AgentInbox) (fromAgent : String) (payload : AgentMessagePayload)
    (bodyStr : String) (order : Option OrderContext) (now : Int) :
    Option (AgentInbox × StoreResult) :=
  match payload.message_id.text?.filter fun text => text ≠ "" with
  | none => some (inbox, .rejected "missing message_id")
  | some messageId =>
      match inbox.findByMessageId messageId with
      | some existing => some (inbox, .duplicate existing.id)
      | none =>
          match storedTarget payload.target with
          | .error message => some (inbox, .rejected ("invalid target URI: " ++ message))
          | .ok (normalizedTo, toInstance) =>
              (inbox.insertPayload P fromAgent payload bodyStr messageId normalizedTo
                toInstance order (isoText now)).map fun stored =>
                  (stored, .delivered inbox.nextId)

/-- `none` where it throws. -/
def store (inbox : AgentInbox) (fromAgent : String) (payload : AgentMessagePayload)
    (order : Option OrderContext) (now : Int) : Option (AgentInbox × StoreResult) :=
  (bodyText payload.body).bind fun bodyStr =>
    if MAX_MESSAGE_BYTES < bodyStr.utf8ByteSize then
      some (inbox, .rejected ("body exceeds " ++ toString MAX_MESSAGE_BYTES ++ " bytes"))
    else
      (subjectTooLong P payload.subject).bind fun tooLong =>
        if tooLong then
          some (inbox, .rejected ("subject exceeds " ++ toString MAX_SUBJECT_LENGTH ++ " chars"))
        else inbox.storeChecked P fromAgent payload bodyStr order now

end AgentInbox

/-! ## Listing -/

structure ListOptions where
  unreadOnly : Bool := false
  fromAgent : Option String := none
  limit : Option Nat := none
  includeArchived : Bool := false
  forInstance : Option String := none
  includeLegacy : Bool := false

/-- The `WHERE` clauses; an empty filter is none. -/
def ListOptions.selects (opts : ListOptions) (row : InboxMessage) : Bool :=
  (opts.includeArchived || !row.archived) &&
    (!opts.unreadOnly || row.read_at.isNone) &&
    ((opts.fromAgent.filter fun text => text ≠ "").all fun sender => row.from_agent = sender) &&
    ((opts.forInstance.filter fun text => text ≠ "").all fun inst =>
      row.to_agent_instance = some inst || (opts.includeLegacy && row.to_agent_instance.isNone))

/-- `ORDER BY received_at DESC LIMIT ?`; equal times keep the order of insertion. -/
def AgentInbox.list (inbox : AgentInbox) (opts : ListOptions) : List InboxMessage :=
  (newestFirst InboxMessage.received_at (inbox.messages.filter opts.selects)).take
    (opts.limit.getD 50)

/-! ## What is stored -/

/-- A text or a missing value. -/
def IsText (value : Data) : Prop := (textCell value).isSome = true

instance : DecidablePred IsText := fun _ => inferInstanceAs (Decidable (_ = _))

/-- A payload that passes the checks before the look for duplicates. -/
structure AgentMessagePayload.Admissible (payload : AgentMessagePayload)
    (bodyStr messageId : String) : Prop where
  body : bodyText payload.body = some bodyStr
  size : bodyStr.utf8ByteSize ≤ MAX_MESSAGE_BYTES
  short : subjectTooLong P payload.subject = some false
  message_id : payload.message_id = .string messageId
  nonempty : messageId ≠ ""

/-- A payload of texts that keeps the limits. -/
structure AgentMessagePayload.Fits (payload : AgentMessagePayload) (bodyStr messageId : String) :
    Prop where
  body : bodyText payload.body = some bodyStr
  size : bodyStr.utf8ByteSize ≤ MAX_MESSAGE_BYTES
  subject : IsText payload.subject
  short : subjectTooLong P payload.subject = some false
  message_id : payload.message_id = .string messageId
  nonempty : messageId ≠ ""
  in_reply_to : IsText payload.in_reply_to
  sent_at : ∃ text, payload.sent_at = .string text

/-- The row is the message. -/
structure InboxMessage.Carries (row : InboxMessage) (messageId fromAgent normalizedTo : String)
    (toInstance : Option String) (bodyStr : String) : Prop where
  message_id : row.message_id = messageId
  from_agent : row.from_agent = fromAgent
  to_agent : row.to_agent = normalizedTo
  to_agent_instance : row.to_agent_instance = toInstance
  body : row.body = .text bodyStr

/-- The row that a stored message adds. -/
structure InboxMessage.Holds (row : InboxMessage) (messageId fromAgent normalizedTo : String)
    (toInstance : Option String) (bodyStr receivedAt : String) (order : Option OrderContext) :
    Prop where
  message_id : row.message_id = messageId
  from_agent : row.from_agent = fromAgent
  to_agent : row.to_agent = normalizedTo
  to_agent_instance : row.to_agent_instance = toInstance
  body : row.body = .text bodyStr
  received_at : row.received_at = receivedAt
  read_at : row.read_at = none
  archived : row.archived = false
  order : row.order = orderColumns receivedAt order

variable {P} {inbox : AgentInbox} {fromAgent bodyStr messageId : String}
  {payload : AgentMessagePayload} {order : Option OrderContext} {now : Int}

theorem InboxMessage.Holds.carries {row : InboxMessage} {messageId fromAgent normalizedTo : String}
    {toInstance : Option String} {receivedAt : String} {order : Option OrderContext}
    (h : row.Holds messageId fromAgent normalizedTo toInstance bodyStr receivedAt order) :
    row.Carries messageId fromAgent normalizedTo toInstance bodyStr :=
  ⟨h.message_id, h.from_agent, h.to_agent, h.to_agent_instance, h.body⟩

/-- A row with body and time and a new message id is inserted. -/
theorem AgentInbox.insert_of_new {row : InboxMessage} (hbody : row.body ≠ .null)
    (hsent : row.sent_at ≠ .null) (hnew : inbox.findByMessageId row.message_id = none) :
    ∃ inbox', inbox.insert row = some inbox' ∧ inbox'.messages = inbox.messages ++ [row] := by
  rw [findByMessageId_eq_none] at hnew
  rw [insert, if_neg (by simp [hbody, hsent]), dif_neg hnew]
  exact ⟨_, rfl, rfl⟩

theorem AgentMessagePayload.Fits.admissible (h : payload.Fits P bodyStr messageId) :
    payload.Admissible P bodyStr messageId :=
  ⟨h.body, h.size, h.short, h.message_id, h.nonempty⟩

theorem AgentInbox.store_of_admissible (h : payload.Admissible P bodyStr messageId) :
    inbox.store P fromAgent payload order now =
      match inbox.findByMessageId messageId with
      | some existing => some (inbox, .duplicate existing.id)
      | none =>
          match storedTarget payload.target with
          | .error message => some (inbox, .rejected ("invalid target URI: " ++ message))
          | .ok (normalizedTo, toInstance) =>
              (inbox.insertPayload P fromAgent payload bodyStr messageId normalizedTo
                toInstance order (isoText now)).map fun stored =>
                  (stored, .delivered inbox.nextId) := by
  have hid : (payload.message_id.text?.filter fun text => text ≠ "") = some messageId := by
    simp [h.message_id, Data.text?, h.nonempty]
  rw [store, h.body, Option.bind_some, if_neg (Nat.not_lt.mpr h.size), h.short,
    Option.bind_some, if_neg Bool.false_ne_true, storeChecked, hid]

theorem AgentInbox.store_of_duplicate (h : payload.Admissible P bodyStr messageId)
    {row : InboxMessage} (hrow : inbox.findByMessageId messageId = some row) :
    inbox.store P fromAgent payload order now = some (inbox, .duplicate row.id) := by
  rw [store_of_admissible h, hrow]

/-- What the driver binds is inserted under a new message id. -/
theorem AgentInbox.insertPayload_of_bound {normalizedTo receivedAt : String}
    {toInstance : Option String} {subject in_reply_to sent_at : Cell}
    (hbind : bind P [payload.subject, .string bodyStr, payload.in_reply_to, payload.sent_at] =
      some [subject, .text bodyStr, in_reply_to, sent_at])
    (hsent : sent_at ≠ .null) (hnew : inbox.findByMessageId messageId = none) :
    ∃ stored row, inbox.insertPayload P fromAgent payload bodyStr messageId normalizedTo
        toInstance order receivedAt = some stored ∧
      stored.messages = inbox.messages ++ [row] ∧
      row.Holds messageId fromAgent normalizedTo toInstance bodyStr receivedAt order := by
  obtain ⟨stored, hstored, hmessages⟩ : ∃ stored, inbox.insert
      { id := inbox.nextId, message_id := messageId, from_agent := fromAgent
        to_agent := normalizedTo, to_agent_instance := toInstance, subject := subject
        body := .text bodyStr, in_reply_to := in_reply_to, sent_at := sent_at
        received_at := receivedAt, order := orderColumns receivedAt order } = some stored ∧
      stored.messages = _ :=
    AgentInbox.insert_of_new (by simp) hsent hnew
  refine ⟨stored, _, ?_, hmessages, ⟨rfl, rfl, rfl, rfl, rfl, rfl, rfl, rfl, rfl⟩⟩
  rw [insertPayload, hbind]
  exact hstored

theorem AgentInbox.store_of_new (h : payload.Fits P bodyStr messageId)
    (hnew : inbox.findByMessageId messageId = none) {normalizedTo : String}
    {toInstance : Option String}
    (htarget : storedTarget payload.target = .ok (normalizedTo, toInstance)) :
    ∃ stored row, inbox.store P fromAgent payload order now =
        some (stored, .delivered inbox.nextId) ∧
      stored.messages = inbox.messages ++ [row] ∧
      row.Holds messageId fromAgent normalizedTo toInstance bodyStr (isoText now) order := by
  obtain ⟨subject, hsubject⟩ := Option.isSome_iff_exists.mp h.subject
  obtain ⟨in_reply_to, hreply⟩ := Option.isSome_iff_exists.mp h.in_reply_to
  obtain ⟨sent_at, hsent⟩ := h.sent_at
  -- all four values can be bound, so the insert does not throw
  have hbind : bind P [payload.subject, .string bodyStr, payload.in_reply_to, payload.sent_at] =
      some [subject, .text bodyStr, in_reply_to, .text sent_at] := by
    have hbody : textCell (.string bodyStr) = some (.text bodyStr) := rfl
    have htime : textCell (.string sent_at) = some (.text sent_at) := rfl
    simp [bind, hsubject, hreply, hsent, hbody, htime]
  rw [store_of_admissible h.admissible, hnew, htarget]
  obtain ⟨stored, row, hstored, hmessages, hrow⟩ : ∃ stored row,
      inbox.insertPayload P fromAgent payload bodyStr messageId normalizedTo toInstance order
        (isoText now) = some stored ∧ stored.messages = inbox.messages ++ [row] ∧
      row.Holds messageId fromAgent normalizedTo toInstance bodyStr (isoText now) order :=
    insertPayload_of_bound hbind (by simp) hnew
  refine ⟨stored, row, ?_, hmessages, hrow⟩
  dsimp only
  rw [hstored]
  rfl

theorem storedTarget_of_parse {uri : String} {parsed : ParsedSpiffeUri}
    (h : parseSpiffeUri uri = .ok parsed) :
    storedTarget (.string uri) = .ok (parsed.daemon, parsed.tail) := by
  simp [storedTarget, normalizeAgentId, getAgentInstance, h]
  rfl

/-! ## What is listed -/

theorem AgentInbox.mem_of_mem_list {opts : ListOptions} {row : InboxMessage}
    (h : row ∈ inbox.list opts) : row ∈ inbox.messages :=
  List.mem_of_mem_filter (mem_newestFirst.mp (List.mem_of_mem_take h))

/-- The newest row is listed for its instance if it is not behind too many that are as new. -/
theorem AgentInbox.mem_list_of_newest {stored : AgentInbox} {row : InboxMessage} {inst : String}
    (hmessages : stored.messages = inbox.messages ++ [row])
    (hnew : row ∉ inbox.messages) (hinst : inst ≠ "")
    (hrow : row.to_agent_instance = some inst) (harchived : row.archived = false) :
    row ∈ stored.list { forInstance := some inst } ↔
      (inbox.messages.filter
        (ListOptions.selects { forInstance := some inst })).countP
          (fun other => row.received_at ≤ other.received_at) < 50 := by
  have hselects : ListOptions.selects { forInstance := some inst } row = true := by
    simp [ListOptions.selects, hinst, hrow, harchived]
  have hfilter : stored.messages.filter (ListOptions.selects { forInstance := some inst }) =
      inbox.messages.filter (ListOptions.selects { forInstance := some inst }) ++ [row] := by
    rw [hmessages, List.filter_append, List.filter_singleton, hselects]
    rfl
  rw [list, hfilter]
  exact mem_take_newestFirst_concat fun hmem => hnew (List.mem_of_mem_filter hmem)

end ThinkLocal.Inbox
