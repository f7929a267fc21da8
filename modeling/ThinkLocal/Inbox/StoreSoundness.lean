import ThinkLocal.Foundation.Machine
import ThinkLocal.Inbox.AgentMessage

/-!
# What the answers of the inbox say

`AgentInbox.store` for payloads of any types from any senders.  A call does what its answer
says unless it throws, which a body without a text, a missing time or arguments that the
driver does not take bring about, or finds the message id in a row of another sender: then
the message is answered as a duplicate and lost.
-/

namespace ThinkLocal.Inbox

open Foundation Js Messages Spiffe

structure StoreCall where
  fromAgent : String
  payload : AgentMessagePayload
  order : Option OrderContext
  now : Int

def StoreCall.answer (P : Platform) (inbox : AgentInbox) (call : StoreCall) :
    Option (AgentInbox × StoreResult) :=
  inbox.store P call.fromAgent call.payload call.order call.now

/-- Calls of `store`; one that throws leaves the table as it is. -/
def storeCalls (P : Platform) : Machine AgentInbox StoreCall where
  init := .empty
  step inbox call := some (((call.answer P inbox).map Prod.fst).getD inbox)

/-! ## Sound answers -/

/-- `delivered` adds the one row of the message, `duplicate` is about a message of this sender,
`rejected` changes nothing, and there is an answer. -/
def SoundAnswer (inbox : AgentInbox) (call : StoreCall) : Option (AgentInbox × StoreResult) → Prop
  | none => False
  | some (after, .delivered id) =>
      ∃ messageId bodyStr normalizedTo toInstance row,
        call.payload.message_id = .string messageId ∧ bodyText call.payload.body = some bodyStr ∧
          storedTarget call.payload.target = .ok (normalizedTo, toInstance) ∧
          after.messages = inbox.messages ++ [row] ∧ row.id = id ∧
          row.Carries messageId call.fromAgent normalizedTo toInstance bodyStr
  | some (after, .duplicate id) =>
      after = inbox ∧ ∃ row ∈ inbox.messages, row.id = id ∧
        call.payload.message_id = .string row.message_id ∧ row.from_agent = call.fromAgent
  | some (after, .rejected _) => after = inbox

/-- The body has a text and the length of the subject can be compared. -/
def Readable (P : Platform) (payload : AgentMessagePayload) : Prop :=
  ∃ bodyStr, bodyText payload.body = some bodyStr ∧
    (bodyStr.utf8ByteSize ≤ MAX_MESSAGE_BYTES → (subjectTooLong P payload.subject).isSome = true)

/-- The driver puts subject, body, reference and time into their columns. -/
def Bound (P : Platform) (payload : AgentMessagePayload) (bodyStr : String) : Prop :=
  ∃ subject in_reply_to sent_at,
    bind P [payload.subject, .string bodyStr, payload.in_reply_to, payload.sent_at] =
        some [subject, .text bodyStr, in_reply_to, sent_at] ∧
      sent_at ≠ .null

/-- Nothing throws, and a row with the message id is one of this sender. -/
structure Storable (P : Platform) (inbox : AgentInbox) (call : StoreCall) : Prop where
  readable : Readable P call.payload
  sender : ∀ bodyStr messageId, call.payload.Admissible P bodyStr messageId →
    ∀ row, inbox.findByMessageId messageId = some row → row.from_agent = call.fromAgent
  bound : ∀ bodyStr messageId, call.payload.Admissible P bodyStr messageId →
    inbox.findByMessageId messageId = none →
      ∀ target, storedTarget call.payload.target = .ok target → Bound P call.payload bodyStr

/-! ## One call -/

variable {P : Platform} {inbox : AgentInbox} {call : StoreCall} {payload : AgentMessagePayload}
  {bodyStr messageId : String}

theorem AgentMessagePayload.Admissible.readable (h : payload.Admissible P bodyStr messageId) :
    Readable P payload :=
  ⟨bodyStr, h.body, fun _ => by rw [h.short]; rfl⟩

theorem AgentMessagePayload.Admissible.unique (h : payload.Admissible P bodyStr messageId)
    {bodyStr' messageId' : String} (h' : payload.Admissible P bodyStr' messageId') :
    bodyStr' = bodyStr ∧ messageId' = messageId :=
  ⟨Option.some.inj (h'.body.symm.trans h.body),
    Data.string.inj (h'.message_id.symm.trans h.message_id)⟩

/-- A call throws before the limits, is rejected by them or goes on to the table. -/
theorem answer_cases (P : Platform) (inbox : AgentInbox) (call : StoreCall) :
    (¬ Readable P call.payload ∧ call.answer P inbox = none) ∨
      (Readable P call.payload ∧
        (∀ bodyStr messageId, ¬ call.payload.Admissible P bodyStr messageId) ∧
        ∃ reason, call.answer P inbox = some (inbox, .rejected reason)) ∨
      ∃ bodyStr messageId, call.payload.Admissible P bodyStr messageId := by
  unfold StoreCall.answer AgentInbox.store
  -- without a text of the body `store` throws before it comes to the limits
  cases hbody : bodyText call.payload.body with
  | none =>
      refine .inl ⟨?_, rfl⟩
      rintro ⟨bodyStr, hsome, -⟩
      rw [hbody] at hsome
      cases hsome
  | some bodyStr =>
      by_cases hsize : MAX_MESSAGE_BYTES < bodyStr.utf8ByteSize
      · refine .inr (.inl ⟨⟨bodyStr, hbody, fun hle => absurd hle (not_le.mpr hsize)⟩, ?_, ?_⟩)
        · intro bodyStr' messageId h
          obtain rfl := Option.some.inj (hbody.symm.trans h.body)
          exact absurd h.size (not_le.mpr hsize)
        · exact ⟨_, by rw [Option.bind_some, if_pos hsize]⟩
      · rw [Option.bind_some, if_neg hsize]
        -- the subject is any value with a `length`, whose comparison can throw
        cases hlong : subjectTooLong P call.payload.subject with
        | none =>
            refine .inl ⟨?_, rfl⟩
            rintro ⟨bodyStr', hsome, hread⟩
            obtain rfl := Option.some.inj (hbody.symm.trans hsome)
            have hsubject := hread (not_lt.mp hsize)
            rw [hlong] at hsubject
            cases hsubject
        | some tooLong =>
            have hread : Readable P call.payload := ⟨bodyStr, hbody, fun _ => by rw [hlong]; rfl⟩
            cases tooLong with
            | true =>
                refine .inr (.inl ⟨hread, ?_, ⟨_, rfl⟩⟩)
                intro bodyStr' messageId h
                cases hlong.symm.trans h.short
            | false =>
                rw [Option.bind_some, if_neg Bool.false_ne_true, AgentInbox.storeChecked]
                -- a `message_id` that is no text, or the empty one, is rejected
                cases hid : call.payload.message_id.text?.filter fun text => decide (text ≠ "") with
                | none =>
                    refine .inr (.inl ⟨hread, ?_, ⟨_, rfl⟩⟩)
                    intro bodyStr' messageId h
                    have hkept : call.payload.message_id.text?.filter
                        (fun text => decide (text ≠ "")) = some messageId := by
                      rw [h.message_id]
                      exact Option.filter_eq_some_iff.mpr ⟨rfl, decide_eq_true h.nonempty⟩
                    cases hid.symm.trans hkept
                | some messageId =>
                    obtain ⟨htext, hne⟩ := Option.filter_eq_some_iff.mp hid
                    exact .inr (.inr ⟨bodyStr, messageId, hbody, not_lt.mp hsize, hlong,
                      Data.text?_eq_some.mp htext, of_decide_eq_true hne⟩)

/-- A message with the id of a row is answered soundly if the row is one of its sender. -/
theorem sound_of_known (h : call.payload.Admissible P bodyStr messageId) {row : InboxMessage}
    (hrow : inbox.findByMessageId messageId = some row) :
    SoundAnswer inbox call (call.answer P inbox) ↔ row.from_agent = call.fromAgent := by
  obtain ⟨hmem, hid⟩ := AgentInbox.findByMessageId_eq_some hrow
  rw [StoreCall.answer, AgentInbox.store_of_duplicate h hrow]
  constructor
  · rintro ⟨-, row', hmem', -, hid', hfrom⟩
    -- The message id is that of one row only.
    have hsame : row = row' := by
      refine List.inj_on_of_nodup_map inbox.unique hmem hmem' ?_
      rw [hid]
      exact Data.string.inj (h.message_id.symm.trans hid')
    rw [hsame]
    exact hfrom
  · intro hfrom
    exact ⟨rfl, row, hmem, rfl, by rw [hid, h.message_id], hfrom⟩

/-- A row that is put together from the cells of the driver. -/
theorem insertPayload_eq_some {order : Option OrderContext} {fromAgent normalizedTo receivedAt :
    String} {toInstance : Option String} {after : AgentInbox}
    (hstored : inbox.insertPayload P fromAgent payload bodyStr messageId normalizedTo toInstance
      order receivedAt = some after) :
    ∃ subject body in_reply_to sent_at row,
      bind P [payload.subject, .string bodyStr, payload.in_reply_to, payload.sent_at] =
          some [subject, body, in_reply_to, sent_at] ∧
        sent_at ≠ .null ∧ after.messages = inbox.messages ++ [row] ∧ row.id = inbox.nextId ∧
        row.body = body ∧ row.message_id = messageId ∧ row.from_agent = fromAgent ∧
        row.to_agent = normalizedTo ∧ row.to_agent_instance = toInstance ∧
        row.order = orderColumns receivedAt order := by
  unfold AgentInbox.insertPayload at hstored
  split at hstored
  case h_2 => cases hstored
  case h_1 subject body in_reply_to sent_at hbind =>
    unfold AgentInbox.insert at hstored
    split at hstored
    case isTrue => cases hstored
    case isFalse hnull =>
      split at hstored
      case isTrue => cases hstored
      case isFalse =>
        obtain rfl := Option.some.inj hstored
        exact ⟨subject, body, in_reply_to, sent_at, _, hbind, fun h => hnull (.inr h), rfl, rfl,
          rfl, rfl, rfl, rfl, rfl, rfl⟩

/-- A message that is answered as delivered is the row that was added. -/
theorem answer_eq_delivered {after : AgentInbox} {id : Nat}
    (h : call.answer P inbox = some (after, .delivered id)) :
    ∃ row, after.messages = inbox.messages ++ [row] ∧ row.id = id ∧
      row.order = orderColumns (isoText call.now) call.order := by
  rcases answer_cases P inbox call with ⟨-, hnone⟩ | ⟨-, -, reason, hrejected⟩ |
    ⟨bodyStr, messageId, hadmissible⟩
  · cases hnone.symm.trans h
  · cases hrejected.symm.trans h
  · rw [StoreCall.answer, AgentInbox.store_of_admissible hadmissible] at h
    split at h
    case h_1 => cases h
    case h_2 =>
      split at h
      case h_1 => cases h
      case h_2 =>
        obtain ⟨stored, hstored, hpair⟩ := Option.map_eq_some_iff.mp h
        obtain ⟨rfl, hdelivered⟩ := Prod.mk.inj hpair
        obtain rfl := StoreResult.delivered.inj hdelivered
        obtain ⟨-, -, -, -, row, -, -, hmessages, hid, -, -, -, -, -, horder⟩ :=
          insertPayload_eq_some hstored
        exact ⟨row, hmessages, hid, horder⟩

/-- A message with a new id is answered soundly if it can be bound, where its target parses. -/
theorem sound_of_new (h : call.payload.Admissible P bodyStr messageId)
    (hnew : inbox.findByMessageId messageId = none) :
    SoundAnswer inbox call (call.answer P inbox) ↔
      ∀ target, storedTarget call.payload.target = .ok target → Bound P call.payload bodyStr := by
  rw [StoreCall.answer, AgentInbox.store_of_admissible h, hnew]
  dsimp only
  cases htarget : storedTarget call.payload.target with
  | error message => exact iff_of_true rfl (by simp)
  | ok target =>
      obtain ⟨normalizedTo, toInstance⟩ := target
      dsimp only
      cases hstored : inbox.insertPayload P call.fromAgent call.payload bodyStr messageId
          normalizedTo toInstance call.order (isoText call.now) with
      -- the driver refuses a value or a NOT NULL column stays empty
      | none =>
          refine iff_of_false id fun hbound => ?_
          obtain ⟨subject, in_reply_to, sent_at, hbind, hsent⟩ := hbound _ rfl
          obtain ⟨after, row, hinsert, -⟩ := AgentInbox.insertPayload_of_bound hbind hsent hnew
          cases hstored.symm.trans hinsert
      | some after =>
          obtain ⟨subject, body, in_reply_to, sent_at, row, hbind, hsent, hmessages, hid, hbody,
            hmessage, hfrom, hto, hinst, -⟩ := insertPayload_eq_some hstored
          constructor
          · rintro ⟨messageId', bodyStr', normalizedTo', toInstance', row', -, hbody', -, hmessages',
              -, hcarries⟩ - -
            obtain rfl := Option.some.inj (h.body.symm.trans hbody')
            -- the row that the answer promises is the one that was inserted
            obtain rfl := (List.append_cancel_left (hmessages.symm.trans hmessages') :
              [row] = [row']) |> List.singleton_inj.mp
            obtain rfl : body = .text bodyStr := hbody.symm.trans hcarries.body
            exact ⟨subject, in_reply_to, sent_at, hbind, hsent⟩
          · intro hbound
            obtain ⟨subject', in_reply_to', sent_at', hbind', -⟩ := hbound _ rfl
            -- the second cell is the text of the body, so no other value has moved into its column
            obtain rfl : body = .text bodyStr := by
              have hcells := Option.some.inj (hbind.symm.trans hbind')
              simp only [List.cons.injEq] at hcells
              exact hcells.2.1
            exact ⟨messageId, bodyStr, normalizedTo, toInstance, row, h.message_id, h.body, htarget,
              hmessages, hid, hmessage, hfrom, hto, hinst, hbody⟩

/-- A call does what its answer says exactly if it is storable. -/
theorem sound_iff_storable :
    SoundAnswer inbox call (call.answer P inbox) ↔ Storable P inbox call := by
  rcases answer_cases P inbox call with ⟨hunread, hnone⟩ | ⟨hread, hno, reason, hrejected⟩ |
    ⟨bodyStr, messageId, hadmissible⟩
  · rw [hnone]
    exact iff_of_false id fun h => hunread h.readable
  · rw [hrejected]
    exact iff_of_true rfl ⟨hread, fun b m h => absurd h (hno b m), fun b m h => absurd h (hno b m)⟩
  · cases hfind : inbox.findByMessageId messageId with
    | some row =>
        -- a known id is answered as a duplicate, whoever sent it
        rw [sound_of_known hadmissible hfind]
        constructor
        · intro hfrom
          refine ⟨hadmissible.readable, ?_, ?_⟩
          · intro b m h row' hrow'
            obtain ⟨-, rfl⟩ := hadmissible.unique h
            obtain rfl := Option.some.inj (hfind.symm.trans hrow')
            exact hfrom
          · intro b m h hnone
            obtain ⟨-, rfl⟩ := hadmissible.unique h
            cases hfind.symm.trans hnone
        · intro hstorable
          exact hstorable.sender bodyStr messageId hadmissible row hfind
    | none =>
        -- a new id is stored, if the database can bind the values
        rw [sound_of_new hadmissible hfind]
        constructor
        · intro hbound
          refine ⟨hadmissible.readable, ?_, ?_⟩
          · intro b m h row hrow
            obtain ⟨-, rfl⟩ := hadmissible.unique h
            cases hfind.symm.trans hrow
          · intro b m h _ target htarget
            obtain ⟨rfl, -⟩ := hadmissible.unique h
            exact hbound target htarget
        · intro hstorable
          exact hstorable.bound bodyStr messageId hadmissible hfind

/-! ## Calls in a row, and their acknowledgements -/

/-- The call of the handler for a message of a paired sender. -/
def inboundCall (C : Codec) (P : Platform) (envelope : MessageEnvelope) (msg : AgentMessagePayload)
    (senderPublicKey : String) (r : Readings) : StoreCall where
  fromAgent := envelope.sender
  payload := msg
  order := orderContext C P msg.body envelope.sender senderPublicKey r.verifiedAt
  now := r.storedAt

/-- What a sound answer acknowledges as delivered is in the inbox under its sender. -/
theorem stored_of_acknowledged {after : AgentInbox} {result : StoreResult}
    (hanswer : call.answer P inbox = some (after, result))
    (hsound : SoundAnswer inbox call (call.answer P inbox))
    (hack : (ackOf result).1 = "delivered") :
    ∃ row ∈ after.messages, call.payload.message_id = .string row.message_id ∧
      row.from_agent = call.fromAgent := by
  rw [hanswer] at hsound
  cases result with
  | delivered id =>
      obtain ⟨messageId, bodyStr, normalizedTo, toInstance, row, hid, -, -, hmessages, -, hcarries⟩ :=
        hsound
      refine ⟨row, ?_, by rw [hid, hcarries.message_id], hcarries.from_agent⟩
      rw [hmessages]
      exact List.mem_append_right _ List.mem_cons_self
  | duplicate id =>
      obtain ⟨rfl, row, hmem, -, hid, hfrom⟩ := hsound
      exact ⟨row, hmem, hid, hfrom⟩
  | rejected reason =>
      have hdifferent : ("rejected" : String) ≠ "delivered" := by decide
      exact absurd hack hdifferent

/-- In a row of calls all answers are sound exactly if all calls are storable; a message id stays
that of one row; and a storable message that the handler acknowledges as delivered is there. -/
theorem stores_sound_iff (P : Platform) (inbox : AgentInbox) (calls : List StoreCall) :
    ((storeCalls P).Meets (fun inbox call => SoundAnswer inbox call (call.answer P inbox)) inbox
        calls ↔ (storeCalls P).Meets (Storable P) inbox calls) ∧
      (∀ after, (storeCalls P).runFrom inbox calls = some after →
        (after.messages.map InboxMessage.message_id).Nodup) ∧
      ∀ (C : Codec) (receiver : Receiver) (envelope : MessageEnvelope) (msg : AgentMessagePayload)
        (senderPublicKey : String) (r : Readings) (after : AgentInbox)
        (ack : AgentMessageAckPayload),
        receive C P receiver envelope senderPublicKey r = some (after, ack) →
          ack.status = "delivered" → AgentMessagePayload.ofData envelope.payload = some msg →
          Storable P receiver.inbox (inboundCall C P envelope msg senderPublicKey r) →
            ∃ row ∈ after.messages, ack.message_id = .string row.message_id ∧
              row.from_agent = envelope.sender := by
  refine ⟨Machine.meets_congr (fun _ _ => sound_iff_storable) inbox calls, fun after _ =>
    after.unique, ?_⟩
  intro C receiver envelope msg senderPublicKey r after ack hreceive hstatus hmsg hstorable
  -- the answers before the store are rejections
  have hdifferent : ("rejected" : String) ≠ "delivered" := by decide
  rw [receive, hmsg, Option.bind_some] at hreceive
  dsimp only at hreceive
  split at hreceive
  case isTrue =>
    obtain ⟨-, rfl⟩ := Prod.mk.inj (Option.some.inj hreceive)
    exact absurd hstatus hdifferent
  case isFalse =>
    split at hreceive
    case isTrue =>
      obtain ⟨-, rfl⟩ := Prod.mk.inj (Option.some.inj hreceive)
      exact absurd hstatus hdifferent
    case isFalse =>
      obtain ⟨⟨stored, result⟩, hanswer, hpair⟩ := Option.map_eq_some_iff.mp hreceive
      obtain ⟨rfl, rfl⟩ := Prod.mk.inj hpair
      have hcall : (inboundCall C P envelope msg senderPublicKey r).answer P receiver.inbox =
          some (stored, result) := hanswer
      exact stored_of_acknowledged hcall (sound_iff_storable.mpr hstorable) hstatus

/-! Two senders choose the same message id. -/

/-- A text with the id `m`. -/
def sameIdCall (fromAgent : String) : StoreCall where
  fromAgent := fromAgent
  payload :=
    { message_id := .string "m", target := .string "spiffe://thinklocal/host/c/agent/codex"
      subject := .undefined, body := .string "text", in_reply_to := .undefined
      sent_at := .string "2026-01-01T00:00:00.000Z" }
  order := none
  now := 0

def aliceUri : String := "spiffe://thinklocal/host/a/agent/codex"

def bobUri : String := "spiffe://thinklocal/host/b/agent/codex"

/-- The message of the second one is lost as a duplicate. -/
theorem stores_unsound :
    ¬ (storeCalls textPlatform).Meets
      (fun inbox call => SoundAnswer inbox call (call.answer textPlatform inbox)) .empty
      [sameIdCall aliceUri, sameIdCall bobUri] := by
  rintro ⟨-, hrest⟩
  obtain ⟨hsecond, -⟩ := hrest _ rfl
  obtain ⟨-, row, hrow, -, -, hfrom⟩ := hsecond
  obtain rfl := List.mem_singleton.mp hrow
  revert hfrom
  decide

end ThinkLocal.Inbox
