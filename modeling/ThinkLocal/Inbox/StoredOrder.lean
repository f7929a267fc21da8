import ThinkLocal.Inbox.OrderIngest
import ThinkLocal.Js.ReadNumber

/-!
# Reading orders again

`AgentInbox.verifyStoredOrder`.  Every read verifies the stored bytes with the stored key by the
verifier of the ingest, which looks at the clock: an order that expires is valid when it is
stored and invalid from its expiry on, while an order without a time to live stays valid.
-/

namespace ThinkLocal.Inbox

open Foundation Js Messages

/-! ## Cells -/

/-- What the driver of the database reads in a cell. -/
inductive CellValue
  | null
  | number (value : Number)
  | text (content : String)
  /-- A `Buffer`. -/
  | blob (content : Bytes)
deriving DecidableEq

/-- `!!value`. -/
def CellValue.truthy : CellValue → Bool
  | .null => false
  | .number value => value ≠ .finite 0 ∧ value ≠ .nan
  | .text content => content ≠ ""
  | .blob _ => true

/-- The columns of an order as a read finds them, whatever has been written to the disk. -/
structure StoredOrder where
  is_order : CellValue
  signed_bytes : CellValue
  signer_spiffe : CellValue
  signer_pubkey : CellValue

/-- The columns as `store` has written them. -/
def OrderColumns.stored (columns : OrderColumns) : StoredOrder where
  is_order := .number (.ofInt columns.is_order)
  signed_bytes := (columns.signed_bytes.map CellValue.blob).getD .null
  signer_spiffe := (columns.signer_spiffe.map CellValue.text).getD .null
  signer_pubkey := (columns.signer_pubkey.map CellValue.text).getD .null

/-- The JavaScript engine and its crypto library. -/
structure Engine where
  /-- The length of the longest `Uint8Array`. -/
  maxLength : Nat
  /-- The text of the key that the library takes a value for which is no text, `none` where it
  throws. -/
  otherKey : CellValue → Option String

/-- The length that a number stands for; `none` where it throws. -/
def toIndex : Number → Option Nat
  | .nan => some 0
  | .finite value =>
      let integer := value.num.tdiv value.den
      if 0 ≤ integer ∧ integer < 2 ^ 53 then some integer.toNat else none
  | _ => none

/-- `new Uint8Array(value)`: a copy of a buffer, or so many zeros; `none` where it throws. -/
def Engine.uint8Array (E : Engine) : CellValue → Option Bytes
  | .blob content => some content
  | .null => some []
  | .number value => zeros value
  | .text content => zeros (toNumber content)
where
  zeros (value : Number) : Option Bytes :=
    ((toIndex value).filter fun length => length ≤ E.maxLength).map fun length =>
      List.replicate length 0

/-- The key that verifies; `none` where the library throws. -/
def Engine.publicKey (E : Engine) : CellValue → Option String
  | .text content => some content
  | value => E.otherKey value

/-- `none` where it throws. -/
def verifyStoredOrder (C : Codec) (E : Engine) (row : StoredOrder) (now : Int) :
    Option VerifyOrderResult :=
  if row.is_order ≠ .number (.finite 1) ∨ ! row.signed_bytes.truthy ∨
      ! row.signer_spiffe.truthy ∨ ! row.signer_pubkey.truthy then
    some (.invalid (some "row is not a verified order"))
  else
    -- the array is made outside the `try` of `verifyOrderBytes`
    (E.uint8Array row.signed_bytes).map fun bytes =>
      match row.signer_spiffe, E.publicKey row.signer_pubkey with
      | .text issuer, some key => verifyOrderBytes C bytes issuer key now
      -- no sender is equal to a value that is no text
      | _, _ => .invalid none

variable {C : Codec} {E : Engine} {P : Platform} {inbox after : AgentInbox}
  {payload : AgentMessagePayload} {body : Data} {bytes : Bytes}
  {sender senderPublicKey orderId : String} {ingestedAt storedAt now : Int} {id : Nat}

/-- The row holds an order of its signer under its key. -/
def Genuine (C : Codec) (E : Engine) (row : StoredOrder) : Prop :=
  ∃ bytes issuer key orderId envelope, E.uint8Array row.signed_bytes = some bytes ∧
    row.signer_spiffe = .text issuer ∧ E.publicKey row.signer_pubkey = some key ∧
    SignedOrder C bytes issuer key orderId envelope

/-- What is read as valid is genuine. -/
theorem genuine_of_verifyStoredOrder {row : StoredOrder} {issuer : String}
    (h : verifyStoredOrder C E row now = some (.valid issuer orderId)) : Genuine C E row := by
  unfold verifyStoredOrder at h
  split at h
  case isTrue => cases h
  case isFalse =>
    obtain ⟨bytes, hbytes, hverify⟩ := Option.map_eq_some_iff.mp h
    split at hverify
    case h_2 => cases hverify
    case h_1 signer key hsigner hkey =>
      obtain ⟨-, envelope, horder, -⟩ := verifyOrderBytes_eq_valid.mp hverify
      exact ⟨bytes, signer, key, orderId, envelope, hbytes, hsigner, hkey, horder⟩

/-- Bytes are copied, so nothing throws outside the verifier. -/
theorem verifyStoredOrder_isSome {row : StoredOrder}
    (hbytes : row.signed_bytes = .null ∨ ∃ content, row.signed_bytes = .blob content) (now : Int) :
    ∃ result, verifyStoredOrder C E row now = some result := by
  unfold verifyStoredOrder
  split_ifs
  · exact ⟨_, rfl⟩
  · rcases hbytes with hnull | ⟨content, hblob⟩
    · rw [hnull]
      exact ⟨_, rfl⟩
    · rw [hblob]
      exact ⟨_, rfl⟩

/-- The columns of an order are verified as the order itself. -/
theorem verifyStoredOrder_stored {columns : OrderColumns} (horder : columns.is_order = 1)
    (hbytes : columns.signed_bytes = some bytes) (hsigner : columns.signer_spiffe = some sender)
    (hkey : columns.signer_pubkey = some senderPublicKey) (hsender : sender ≠ "")
    (hpublicKey : senderPublicKey ≠ "") :
    verifyStoredOrder C E columns.stored now =
      some (verifyOrderBytes C bytes sender senderPublicKey now) := by
  have hstored : columns.stored =
      ⟨.number (.ofInt 1), .blob bytes, .text sender, .text senderPublicKey⟩ := by
    rw [OrderColumns.stored, horder, hbytes, hsigner, hkey]
    rfl
  rw [hstored, verifyStoredOrder, if_neg]
  · rfl
  · simp [CellValue.truthy, hsender, hpublicKey, Number.ofInt]

/-- An order that was accepted and stored is read as valid until it expires, and for good if it
has no time to live; a row that is not genuine is never read as valid, and where its bytes are
missing or a buffer, the read does not throw. -/
theorem stored_order_verified_until_expiry
    (hclass : classifyInboundOrder C body sender senderPublicKey ingestedAt = .order bytes orderId)
    (hstored : inbox.store P sender payload
      (orderContext C P body sender senderPublicKey ingestedAt) storedAt =
        some (after, .delivered id))
    (hsender : sender ≠ "") (hpublicKey : senderPublicKey ≠ "") :
    (∃ row envelope, after.messages = inbox.messages ++ [row] ∧ row.order.is_order = 1 ∧
        row.order.signer_spiffe = some sender ∧ row.order.order_nonce = some orderId ∧
        SignedOrder C bytes sender senderPublicKey orderId envelope ∧
        ∀ now,
          verifyStoredOrder C E row.order.stored now =
              some (if expired C envelope now then .invalid (some "signature invalid or expired")
              else .valid sender orderId) ∧
            ((Number.ofInt 0).lt envelope.ttl_ms = false →
              verifyStoredOrder C E row.order.stored now = some (.valid sender orderId))) ∧
      ∀ read : StoredOrder,
        (read.signed_bytes = .null ∨ ∃ content, read.signed_bytes = .blob content) →
        ¬ Genuine C E read → ∀ now, ∃ reason,
          verifyStoredOrder C E read now = some (.invalid reason) := by
  constructor
  · obtain ⟨-, envelope, horder, -⟩ := classifyInboundOrder_eq_order.mp hclass
    have hanswer : StoreCall.answer P inbox ⟨sender, payload,
        orderContext C P body sender senderPublicKey ingestedAt, storedAt⟩ =
          some (after, .delivered id) := hstored
    obtain ⟨row, hmessages, -, hcolumns⟩ := answer_eq_delivered hanswer
    have hcontext : orderContext C P body sender senderPublicKey ingestedAt =
        some (.valid bytes sender (orderKeyId P senderPublicKey) senderPublicKey orderId) := by
      rw [orderContext, hclass]
    rw [hcontext] at hcolumns
    refine ⟨row, envelope, hmessages, by rw [hcolumns]; rfl, by rw [hcolumns]; rfl,
      by rw [hcolumns]; rfl, horder, ?_⟩
    intro now
    -- the row holds what was verified, so the read runs the same check at its own time
    have hverify : verifyStoredOrder C E row.order.stored now =
        some (if expired C envelope now then .invalid (some "signature invalid or expired")
        else .valid sender orderId) := by
      rw [← horder.verify]
      exact verifyStoredOrder_stored (by rw [hcolumns]; rfl) (by rw [hcolumns]; rfl)
        (by rw [hcolumns]; rfl) (by rw [hcolumns]; rfl) hsender hpublicKey
    refine ⟨hverify, fun hforever => ?_⟩
    have hnever : expired C envelope now = false := by
      rw [expired, hforever]
      rfl
    rw [hverify, hnever]
    rfl
  · intro read hbytes hforged now
    obtain ⟨result, hresult⟩ := verifyStoredOrder_isSome (C := C) (E := E) hbytes now
    cases result with
    | valid issuer nonce => exact absurd (genuine_of_verifyStoredOrder hresult) hforged
    | invalid reason => exact ⟨reason, hresult⟩

/-! Orders in messages that are stored at the instant 0. -/

/-- An engine whose library takes texts only. -/
def sampleEngine : Engine := ⟨2 ^ 33, fun _ => none⟩

def orderPayload : AgentMessagePayload where
  message_id := .string "m"
  target := .string "spiffe://thinklocal/host/c/agent/codex"
  subject := .undefined
  body := wrapOrderInBody [0]
  in_reply_to := .undefined
  sent_at := .string "2026-01-01T00:00:00.000Z"

/-- The columns of the order of a sender. -/
def storedOrder (sender : String) : OrderColumns :=
  orderColumns (isoText 0) (some (.valid [0] sender "key" "key" "nonce"))

/-- The inbox with the order of the peer. -/
def orderInbox (ttl_ms : Int) : AgentInbox :=
  ((AgentInbox.empty.store textPlatform peerUri orderPayload
    (orderContext (orderCodec peerUri ttl_ms) textPlatform orderPayload.body peerUri "key" 0)
    0).map Prod.fst).getD .empty

/-- An order without a time to live is read as valid after a day. -/
theorem stored_order_verified_lasting :
    verifyStoredOrder (orderCodec peerUri 0) sampleEngine (storedOrder peerUri).stored 86400000 =
      some (.valid peerUri "nonce") := by
  have hclass : classifyInboundOrder (orderCodec peerUri 0) orderPayload.body peerUri "key" 0 =
      .order [0] "nonce" := by rfl
  have hstored : AgentInbox.empty.store textPlatform peerUri orderPayload
      (orderContext (orderCodec peerUri 0) textPlatform orderPayload.body peerUri "key" 0) 0 =
        some (orderInbox 0, .delivered 1) := by rfl
  obtain ⟨⟨row, envelope, hmessages, -, -, -, horder, hread⟩, -⟩ :=
    stored_order_verified_until_expiry (E := sampleEngine) hclass hstored (by decide) (by decide)
  obtain ⟨signed, -, -, henvelope⟩ := horder.signed
  have hforever : (Number.ofInt 0).lt envelope.ttl_ms = false := by
    rw [← Option.some.inj henvelope]
    rfl
  have hrow : row.order = storedOrder peerUri := by
    rw [← List.singleton_inj.mp hmessages]
    rfl
  exact hrow ▸ (hread _).2 hforever

/-- An order with a second to live is valid when it is stored and invalid two seconds later, and
the order of a sender without a name is invalid at once; the read of a row whose bytes were changed
to -1 throws. -/
theorem stored_order_invalid :
    classifyInboundOrder (orderCodec peerUri 1000) orderPayload.body peerUri "key" 0 =
        .order [0] "nonce" ∧
      (orderInbox 1000).messages.map (fun row => verifyStoredOrder (orderCodec peerUri 1000)
        sampleEngine row.order.stored 2000) =
          [some (.invalid (some "signature invalid or expired"))] ∧
      classifyInboundOrder (orderCodec "" 0) orderPayload.body "" "key" 0 = .order [0] "nonce" ∧
      verifyStoredOrder (orderCodec "" 0) sampleEngine (storedOrder "").stored 0 =
        some (.invalid (some "row is not a verified order")) ∧
      verifyStoredOrder (orderCodec peerUri 0) sampleEngine
        { (storedOrder peerUri).stored with signed_bytes := .number (.finite (-1)) } 0 = none :=
  ⟨by rfl, by rfl, by rfl, by rfl, by rfl⟩

end ThinkLocal.Inbox
