import ThinkLocal.Inbox.AgentInbox
import ThinkLocal.Js.Base64
import ThinkLocal.Js.Text

/-!
# Signed orders

`signed-order.ts`: an order is a signed envelope that travels as base64 text in a marked field
of a message body.  Nothing here throws; an exception of a library makes the order invalid.
The text of such an exception is not known, so the reason is left out.
-/

namespace ThinkLocal.Inbox

open Js Messages

def ORDER_MARKER : String := "__tlorder__"

def MAX_ORDER_BYTES : Nat := 47 * 1024

inductive MarkerExtraction
  | absent
  | invalid (reason : String)
  | bytes (content : Bytes)

/-- `key in value` for a value of type `object` that is not null; others have no field. -/
def hasField (value : Data) (key : String) : Bool :=
  match value with
  | .object fields | .exotic fields _ => fields.any fun field => field.1 = key
  | _ => false

variable (C : Codec)

/-- `Math.ceil((MAX_ORDER_BYTES * 4) / 3) + 4`. -/
def MAX_MARKER_LENGTH : Nat := (MAX_ORDER_BYTES * 4 + 2) / 3 + 4

def wrapOrderInBody (orderBytes : Bytes) : Data :=
  .object [(ORDER_MARKER, .string (toBase64 orderBytes))]

def extractOrderMarker (body : Data) : MarkerExtraction :=
  if hasField body ORDER_MARKER then
    match ((body.get ORDER_MARKER).bind Data.text?).filter fun text => text ≠ "" with
    | none => .invalid "marker is not a non-empty string"
    | some raw =>
        if MAX_MARKER_LENGTH < Data.utf16Length raw then
          .invalid "marker exceeds size limit"
        else
          let bytes := fromBase64 raw
          if bytes = [] ∨ MAX_ORDER_BYTES < bytes.length then
            .invalid "decoded marker empty or oversize"
          else .bytes bytes
  else .absent

inductive VerifyOrderResult
  | valid (issuer orderId : String)
  | invalid (reason : Option String)

def verifyOrderBytes (bytes : Bytes) (expectedIssuer publicKeyPem : String) (now : Int) :
    VerifyOrderResult :=
  match (C.deserializeSignedMessage bytes).bind fun signed =>
    decodeAndVerify C signed publicKeyPem now with
  | none => .invalid none
  | some none => .invalid (some "signature invalid or expired")
  | some (some env) =>
      if env.type ≠ MessageType.ORDER then .invalid (some "not an ORDER envelope")
      else if env.sender ≠ expectedIssuer then
        .invalid (some "issuer does not match transport sender")
      else if trim env.idempotency_key = "" then .invalid (some "missing order nonce")
      else .valid env.sender env.idempotency_key

inductive InboundOrderDecision
  | plain
  | invalid (reason : Option String)
  | order (bytes : Bytes) (orderId : String)

def classifyInboundOrder (body : Data) (expectedIssuer publicKeyPem : String) (now : Int) :
    InboundOrderDecision :=
  match extractOrderMarker body with
  | .absent => .plain
  | .invalid reason => .invalid (some ("malformed-marker: " ++ reason))
  | .bytes bytes =>
      match verifyOrderBytes C bytes expectedIssuer publicKeyPem now with
      | .invalid reason => .invalid reason
      | .valid _ orderId =>
          if orderId = "" then .invalid (some "verify failed") else .order bytes orderId

/-- `orderKeyId`. -/
def orderKeyId (P : Platform) (publicKeyPem : String) : String := P.sha256Hex publicKeyPem

/-! ## Marked bodies -/

/-- The body is an object with a marker for these bytes. -/
structure MarksOrder (body : Data) (bytes : Bytes) : Prop where
  marked : hasField body ORDER_MARKER = true
  text : ∃ raw, body.get ORDER_MARKER = some (.string raw) ∧ raw ≠ "" ∧
    Data.utf16Length raw ≤ MAX_MARKER_LENGTH ∧ fromBase64 raw = bytes
  nonempty : bytes ≠ []
  size : bytes.length ≤ MAX_ORDER_BYTES

variable {C} {body : Data} {bytes : Bytes} {expectedIssuer publicKeyPem orderId : String} {now : Int}

theorem extractOrderMarker_eq_bytes :
    extractOrderMarker body = .bytes bytes ↔ MarksOrder body bytes := by
  unfold extractOrderMarker
  constructor
  · intro h
    -- the checks of the source, each of which ends with a refusal
    split at h
    case isFalse => cases h
    case isTrue hmarked =>
      split at h
      case h_1 => cases h
      case h_2 raw hraw =>
        obtain ⟨hfield, hne⟩ := Option.filter_eq_some_iff.mp hraw
        obtain ⟨value, hget, hvalue⟩ := Option.bind_eq_some_iff.mp hfield
        rw [Data.text?_eq_some.mp hvalue] at hget
        split at h
        case isTrue => cases h
        case isFalse hlength =>
          dsimp only at h
          split at h
          case isTrue => cases h
          case isFalse hbytes =>
            obtain rfl := MarkerExtraction.bytes.inj h
            rw [not_or, not_lt] at hbytes
            exact ⟨hmarked, ⟨raw, hget, of_decide_eq_true hne, not_lt.mp hlength, rfl⟩, hbytes.1,
              hbytes.2⟩
  · rintro ⟨hmarked, ⟨raw, hget, hne, hlength, rfl⟩, hnonempty, hsize⟩
    have hraw : (((body.get ORDER_MARKER).bind Data.text?).filter
        fun text => decide (text ≠ "")) = some raw := by
      rw [hget]
      exact Option.filter_eq_some_iff.mpr ⟨rfl, decide_eq_true hne⟩
    rw [if_pos hmarked, hraw]
    dsimp only
    rw [if_neg (not_lt.mpr hlength), if_neg (not_or.mpr ⟨hnonempty, not_lt.mpr hsize⟩)]

/-- The bytes are an order that the issuer has signed with this key. -/
structure SignedOrder (C : Codec) (bytes : Bytes) (issuer publicKeyPem orderId : String)
    (envelope : MessageEnvelope) : Prop where
  signed : ∃ signed, C.deserializeSignedMessage bytes = some signed ∧
    C.verifySignature publicKeyPem signed.envelope signed.signature = some true ∧
    C.decode signed.envelope = some envelope
  type : envelope.type = MessageType.ORDER
  sender : envelope.sender = issuer
  nonce : envelope.idempotency_key = orderId
  nonblank : trim orderId ≠ ""

/-- An order as long as it has not expired. -/
theorem SignedOrder.verify {envelope : MessageEnvelope}
    (h : SignedOrder C bytes expectedIssuer publicKeyPem orderId envelope) (now : Int) :
    verifyOrderBytes C bytes expectedIssuer publicKeyPem now =
      if expired C envelope now then .invalid (some "signature invalid or expired")
      else .valid expectedIssuer orderId := by
  obtain ⟨signed, hsigned, hvalid, hdecode⟩ := h.signed
  have hverify : decodeAndVerify C signed publicKeyPem now =
      some (if expired C envelope now then none else some envelope) := by
    rw [decodeAndVerify, hvalid, Option.bind_some, if_pos rfl, hdecode]
    rfl
  rw [verifyOrderBytes, hsigned, Option.bind_some, hverify]
  cases expired C envelope now with
  | true => rfl
  | false => simp [h.type, h.sender, h.nonce, h.nonblank]

theorem verifyOrderBytes_eq_valid {issuer : String} :
    verifyOrderBytes C bytes expectedIssuer publicKeyPem now = .valid issuer orderId ↔
      issuer = expectedIssuer ∧ ∃ envelope,
        SignedOrder C bytes expectedIssuer publicKeyPem orderId envelope ∧
          expired C envelope now = false := by
  constructor
  · intro h
    unfold verifyOrderBytes at h
    split at h
    case h_1 | h_2 => cases h
    case h_3 envelope henvelope =>
      obtain ⟨signed, hsigned, hverify⟩ := Option.bind_eq_some_iff.mp henvelope
      obtain ⟨hvalid, hdecode, hexpired⟩ := (decodeAndVerify_eq_some C).mp hverify
      split at h
      case isTrue => cases h
      case isFalse htype =>
        split at h
        case isTrue => cases h
        case isFalse hsender =>
          split at h
          case isTrue => cases h
          case isFalse hnonblank =>
            obtain ⟨rfl, rfl⟩ := VerifyOrderResult.valid.inj h
            exact ⟨not_not.mp hsender, envelope, ⟨⟨signed, hsigned, hvalid, hdecode⟩,
              not_not.mp htype, not_not.mp hsender, rfl, hnonblank⟩, hexpired⟩
  · rintro ⟨rfl, envelope, horder, hexpired⟩
    rw [horder.verify, hexpired]
    rfl

/-- A body is an order exactly if it is marked with one that is signed and has not expired. -/
theorem classifyInboundOrder_eq_order :
    classifyInboundOrder C body expectedIssuer publicKeyPem now = .order bytes orderId ↔
      MarksOrder body bytes ∧ ∃ envelope,
        SignedOrder C bytes expectedIssuer publicKeyPem orderId envelope ∧
          expired C envelope now = false := by
  rw [← extractOrderMarker_eq_bytes]
  unfold classifyInboundOrder
  cases hmarker : extractOrderMarker body with
  | absent | invalid => simp
  | bytes content =>
      dsimp only
      cases hverify : verifyOrderBytes C content expectedIssuer publicKeyPem now with
      | invalid reason =>
          refine iff_of_false (by simp) ?_
          rintro ⟨hcontent, horder⟩
          obtain rfl := MarkerExtraction.bytes.inj hcontent
          cases hverify.symm.trans (verifyOrderBytes_eq_valid.mpr ⟨rfl, horder⟩)
      | valid issuer nonce =>
          obtain ⟨rfl, envelope, horder, hexpired⟩ := verifyOrderBytes_eq_valid.mp hverify
          -- a verified order has a nonce, so the test for one is always passed
          have hne : nonce ≠ "" := by
            rintro rfl
            exact horder.nonblank rfl
          dsimp only
          rw [if_neg hne]
          constructor
          · intro h
            obtain ⟨rfl, rfl⟩ := InboundOrderDecision.order.inj h
            exact ⟨rfl, envelope, horder, hexpired⟩
          · rintro ⟨hcontent, horder'⟩
            obtain rfl := MarkerExtraction.bytes.inj hcontent
            have hvalid := verifyOrderBytes_eq_valid.mpr ⟨rfl, horder'⟩
            obtain ⟨-, rfl⟩ := VerifyOrderResult.valid.inj (hverify.symm.trans hvalid)
            rfl

end ThinkLocal.Inbox
