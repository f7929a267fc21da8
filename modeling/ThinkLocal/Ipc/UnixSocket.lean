import ThinkLocal.Foundation.Framing
import ThinkLocal.Foundation.InsertionMap
import ThinkLocal.Js.Json
import ThinkLocal.Js.Utf8

/-!
# The Unix socket

The frame buffer of `unix-socket.ts` and the data handlers of server and client.  What the handlers
do with a frame differs, and with an error: the client catches it for each frame, the server around
the whole loop.
-/

namespace ThinkLocal.Ipc

open Foundation Js

def headerSize : Nat := 4

/-- `buffer.readUInt32BE(0)`. -/
def readUInt32BE : Bytes → Nat
  | a :: b :: c :: d :: _ => ((a.toNat * 256 + b.toNat) * 256 + c.toNat) * 256 + d.toNat
  | _ => 0

/-- The header that `writeUInt32BE` writes. -/
def writeUInt32BE (n : Nat) : Bytes :=
  [UInt8.ofNat (n / 16777216), UInt8.ofNat (n / 65536), UInt8.ofNat (n / 256), UInt8.ofNat n]

theorem readUInt32BE_writeUInt32BE {n : Nat} (hn : n < 2 ^ 32) (rest : Bytes) :
    readUInt32BE (writeUInt32BE n ++ rest) = n := by
  simp only [writeUInt32BE, List.cons_append, readUInt32BE, UInt8.toNat_ofNat']
  omega

/-- The frames of the protocol. -/
def socketFraming : Framing UInt8 where
  headerSize := headerSize
  bound := 2 ^ 32
  header := writeUInt32BE
  lengthOf := readUInt32BE
  headerSize_pos := by decide
  length_header _ := rfl
  lengthOf_append _ hn rest := readUInt32BE_writeUInt32BE hn rest

/-- `writeFrame`: the bytes of a message, `none` where it throws. -/
def writeFrame (maxSize : Nat) (msg : Json) : Option Bytes :=
  let payload := (Json.stringify 0 msg).toUTF8.toList
  if maxSize < payload.length then none else some (socketFraming.encode payload)

/-! ## The frame buffer -/

structure FrameBuffer where
  chunks : List Bytes
  totalLength : Nat

namespace FrameBuffer

def empty : FrameBuffer := ⟨[], 0⟩

/-- What is in the chunks. -/
def bytes (b : FrameBuffer) : Bytes := b.chunks.flatten

/-- `push`, `none` where it throws; the buffer is empty then. -/
def push (b : FrameBuffer) (maxSize : Nat) (chunk : Bytes) : Option FrameBuffer :=
  let totalLength := b.totalLength + chunk.length
  if maxSize * 4 < totalLength then none else some ⟨b.chunks ++ [chunk], totalLength⟩

inductive ReadResult
  | incomplete
  /-- The frame is too large: `read` throws, and the buffer is empty. -/
  | refused
  | frame (payload : Bytes) (rest : FrameBuffer)

/-- The chunks as one. -/
def combined (b : FrameBuffer) : Bytes :=
  match b.chunks with
  | chunk :: rest => if b.totalLength = chunk.length then chunk else (chunk :: rest).flatten
  | [] => []

def read (b : FrameBuffer) (maxSize : Nat) : ReadResult :=
  if b.totalLength < headerSize then .incomplete
  else
    let msgLength := readUInt32BE b.combined
    if maxSize < msgLength then .refused
    else if b.combined.length < headerSize + msgLength then .incomplete
    else
      let rest := b.combined.drop (headerSize + msgLength)
      .frame ((b.combined.drop headerSize).take msgLength)
        ⟨if 0 < rest.length then [rest] else [], rest.length⟩

/-- Is a frame complete? -/
def holdsFrame (b : FrameBuffer) : Prop :=
  headerSize ≤ b.bytes.length ∧ headerSize + readUInt32BE b.bytes ≤ b.bytes.length

end FrameBuffer

/-! ## Receiving -/

/-- One end of a connection: its buffer, what its handler has made of the frames, and whether an error
has left the loop that the handler does not survive. -/
structure Receiver (σ : Type) where
  buffer : FrameBuffer
  state : σ
  failed : Bool

variable {σ ι : Type}

/-- The loop over the frames of the buffer. -/
def drain (handle : σ → Bytes → σ × Framing.Verdict) (maxSize : Nat) :
    Nat → Receiver σ → Receiver σ
  | 0, r => r
  | fuel + 1, r =>
      match r.buffer.read maxSize with
      | .incomplete => r
      | .refused => { r with buffer := .empty, failed := true }
      | .frame payload rest =>
          match handle r.state payload with
          | (state, .next) => drain handle maxSize fuel { r with buffer := rest, state := state }
          | (state, .stop) => { r with buffer := rest, state := state }
          | (state, .fail) => ⟨rest, state, true⟩

/-- A data event. -/
def receive (handle : σ → Bytes → σ × Framing.Verdict) (maxSize : Nat) (r : Receiver σ)
    (chunk : Bytes) : Receiver σ :=
  if r.failed then r
  else
    match r.buffer.push maxSize chunk with
    | none => { r with buffer := .empty, failed := true }
    | some buffer => drain handle maxSize (buffer.totalLength + 1) { r with buffer := buffer }

/-- A data event, or something else that happens to the state. -/
inductive Event (ι : Type)
  | data (chunk : Bytes)
  | act (action : ι)

/-- The bytes of an event. -/
def Event.bytes : Event ι → Bytes
  | data chunk => chunk
  | act _ => []

def handleEvent (handle : σ → Bytes → σ × Framing.Verdict) (perform : ι → σ → σ) (maxSize : Nat)
    (r : Receiver σ) : Event ι → Receiver σ
  | .data chunk => receive handle maxSize r chunk
  | .act action => { r with state := perform action r.state }

/-- A connection from its start. -/
def run (handle : σ → Bytes → σ × Framing.Verdict) (perform : ι → σ → σ) (maxSize : Nat) (start : σ)
    (events : List (Event ι)) : Receiver σ :=
  events.foldl (handleEvent handle perform maxSize) ⟨.empty, start, false⟩

/-! ## The server -/

/-- What `onMessage` does with a message; `respond` throws into it. -/
inductive HandlerOutcome
  | returned
  | thrown
  /-- A `FrameProtocolError` is thrown. -/
  | protocolError
deriving DecidableEq

/-- How the loop goes on: only a `FrameProtocolError` closes the connection. -/
def HandlerOutcome.verdict : HandlerOutcome → Framing.Verdict
  | returned => .next
  | thrown => .stop
  | protocolError => .fail

/-- Is the value true in a condition? -/
def truthy : Json → Bool
  | .null => false
  | .boolean value => value
  | .number value => value ≠ .finite 0 ∧ value ≠ .nan
  | .string text => text ≠ ""
  | .array _ | .object _ => true

def isNumber : Json → Bool
  | .number _ => true
  | _ => false

/-- The required fields `type`, `from` and `timestamp`. -/
def hasRequiredFields : Json → Bool
  | .object fields =>
      (Json.fieldOf fields "type").any truthy && (Json.fieldOf fields "from").any truthy &&
        (Json.fieldOf fields "timestamp").any isNumber
  | _ => false

def parsePayload (payload : Bytes) : Option Json :=
  Json.parse (String.ofList (decodeUtf8 payload))

/-- The message that a payload is, if it is well formed. -/
def message (payload : Bytes) : Option Json := (parsePayload payload).filter hasRequiredFields

/-- What the server does with a frame: the messages with which `onMessage` was called, and how the
loop goes on.  The outcome of `onMessage` may depend on all messages before. -/
def serverFrame (onMessage : List Json → Json → HandlerOutcome) (calls : List Json)
    (payload : Bytes) : List Json × Framing.Verdict :=
  match parsePayload payload with
  | none => (calls, .stop)
  -- a field of `null` is read, which throws
  | some .null => (calls, .stop)
  | some msg =>
      if hasRequiredFields msg then (calls ++ [msg], (onMessage calls msg).verdict)
      else (calls, .next)

def serve (onMessage : List Json → Json → HandlerOutcome) (maxSize : Nat) (chunks : List Bytes) :
    Receiver (List Json) :=
  run (serverFrame onMessage) (fun action _ => Empty.elim action) maxSize [] (chunks.map .data)

/-! ## The client -/

/-- The requests that wait under their correlation ids, and the answered ones with their answers. -/
structure Requests where
  pending : InsertionMap String Nat
  answers : List (Nat × Json)

inductive RequestAction
  /-- A request with a number of its own. -/
  | request (correlationId : String) (number : Nat)
  | timeout (correlationId : String)

def perform : RequestAction → Requests → Requests
  | .request correlationId number, r => { r with pending := r.pending.set correlationId number }
  | .timeout correlationId, r => { r with pending := r.pending.delete correlationId }

/-- The correlation id of a message; no request waits under one that is no text. -/
def correlationId : Json → Option String
  | .object fields =>
      match Json.fieldOf fields "correlationId" with
      | some (.string id) => if id = "" then none else some id
      | _ => none
  | _ => none

/-- What the client does with a message. -/
def settle (r : Requests) (msg : Json) : Requests :=
  match correlationId msg with
  | none => r
  | some id =>
      match r.pending.get id with
      | none => r
      | some number =>
          { pending := r.pending.delete id, answers := r.answers ++ [(number, msg)] }

/-- What the client does with a frame; an error is caught here. -/
def clientFrame (r : Requests) (payload : Bytes) : Requests × Framing.Verdict :=
  match parsePayload payload with
  | none => (r, .next)
  | some msg => (settle r msg, .next)

def connect (maxSize : Nat) (events : List (Event RequestAction)) : Receiver Requests :=
  run clientFrame perform maxSize ⟨.empty, []⟩ events

end ThinkLocal.Ipc
