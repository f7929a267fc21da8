import ThinkLocal.Inbox.StoreSoundness

/-!
# Taking in orders

What `classifyInboundOrder` says about a body, and what is stored about it.  The marker of an
order is small enough for the inbox, but nothing bounds the rest of a body that carries one,
so an order can be verified first and then be too large to be stored.
-/

namespace ThinkLocal.Inbox

open Foundation Js Messages

variable {C : Codec} {P : Platform} {body : Data} {sender senderPublicKey : String} {now : Int}

/-- The body has a text that is small enough for the inbox. -/
def FitsInbox (body : Data) : Prop :=
  ∃ bodyStr, bodyText body = some bodyStr ∧ bodyStr.utf8ByteSize ≤ MAX_MESSAGE_BYTES

/-- An order with nothing but its marker is small enough. -/
theorem fitsInbox_wrapOrderInBody {bytes : Bytes} (hsize : bytes.length ≤ MAX_ORDER_BYTES) :
    FitsInbox (wrapOrderInBody bytes) := by
  refine ⟨_, rfl, ?_⟩
  have hbraces : ("\x7b" : String).utf8ByteSize = 1 ∧ ("\x7d" : String).utf8ByteSize = 1 := by decide
  have hkey : (Data.jsonString ORDER_MARKER ++ ":").utf8ByteSize = 14 := by decide
  have hfields : ",".intercalate [Data.jsonString ORDER_MARKER ++ ":" ++
      Data.jsonString (toBase64 bytes)] =
        Data.jsonString ORDER_MARKER ++ ":" ++ Data.jsonString (toBase64 bytes) := rfl
  rw [Data.jsonObject, List.map_singleton, hfields, String.utf8ByteSize_append,
    String.utf8ByteSize_append, String.utf8ByteSize_append, hkey, hbraces.1, hbraces.2,
    Data.utf8ByteSize_jsonString fun _ => plain_of_mem_toBase64, length_toBase64]
  unfold MAX_ORDER_BYTES at hsize
  unfold MAX_MESSAGE_BYTES
  omega

/-! An order whose body has a long note beside the marker. -/

/-- The order that everything decodes to. -/
def sampleOrder (sender : String) (ttl_ms : Int) : MessageEnvelope where
  id := "order"
  type := MessageType.ORDER
  sender := sender
  correlation_id := "order"
  timestamp := isoText 0
  ttl_ms := .ofInt ttl_ms
  idempotency_key := "nonce"
  payload := .null

def orderCodec (sender : String) (ttl_ms : Int) : Codec where
  encode _ := []
  decode _ := some (sampleOrder sender ttl_ms)
  deserializeSignedMessage bytes := some ⟨bytes, []⟩
  signData _ _ := []
  verifySignature key _ _ := some (key = "key")
  getTime _ := some 0

end ThinkLocal.Inbox
