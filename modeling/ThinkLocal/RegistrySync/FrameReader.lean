import ThinkLocal.Foundation.Framing
import ThinkLocal.Js.Data

/-!
# One frame for each stream

`registry-sync-protocol.ts`: a message is sent as one frame on a stream of its own.  The reader
takes the chunks of the stream as they come: first the header, then the payload, and then it
looks for bytes that do not belong to the frame.  There it reads only once, so what comes
behind an empty chunk is not seen.
-/

namespace ThinkLocal.RegistrySync

open Foundation Js

def REGISTRY_SYNC_MAX_FRAME_BYTES : Nat := 8 * 1024 * 1024

/-- `view.getUint32(0, true)`. -/
def getUint32LE : Bytes → Nat
  | a :: b :: c :: d :: _ => ((d.toNat * 256 + c.toNat) * 256 + b.toNat) * 256 + a.toNat
  | _ => 0

/-- What `view.setUint32(0, n, true)` writes. -/
def setUint32LE (n : Nat) : Bytes :=
  [UInt8.ofNat n, UInt8.ofNat (n / 256), UInt8.ofNat (n / 65536), UInt8.ofNat (n / 16777216)]

theorem getUint32LE_setUint32LE {n : Nat} (hn : n < 2 ^ 32) (rest : Bytes) :
    getUint32LE (setUint32LE n ++ rest) = n := by
  simp only [setUint32LE, List.cons_append, getUint32LE, UInt8.toNat_ofNat']
  omega

/-- The frames of the protocol. -/
def syncFraming : Framing UInt8 where
  headerSize := 4
  bound := 2 ^ 32
  header := setUint32LE
  lengthOf := getUint32LE
  headerSize_pos := by decide
  length_header _ := rfl
  lengthOf_append _ hn rest := getUint32LE_setUint32LE hn rest

/-- The error is the message of the `RegistrySyncFrameError`. -/
def encodeFrame (payload : Bytes) : Except String Bytes :=
  if REGISTRY_SYNC_MAX_FRAME_BYTES < payload.length then
    .error ("frame size " ++ toString payload.length ++ " exceeds limit " ++
      toString REGISTRY_SYNC_MAX_FRAME_BYTES)
  else .ok (syncFraming.encode payload)

/-! ## The stream -/

/-- What the reading after the last chunk gives. -/
inductive Ending
  | done
  | aborted
  /-- `iterator.next()` is rejected. -/
  | failed (error : String)
deriving DecidableEq

/-- The values of the chunks, where one may be missing, and how the stream ends. -/
structure Source where
  chunks : List (Option Bytes)
  ending : Ending

inductive ReadError
  /-- A `RegistrySyncFrameError`. -/
  | frame (message : String)
  | source (error : String)
deriving DecidableEq

/-- How the body of the `try` is left, and how often it has called `closeIterator`. -/
abbrev Exit := Except ReadError (Option Bytes) × Nat

def Exit.returns (value : Option Bytes) : Exit := (.ok value, 1)

def Exit.throws (error : ReadError) : Exit := (.error error, 0)

/-- The reading after the last chunk, with what the phase does at the end of the stream. -/
def Ending.read (ending : Ending) (atEnd : Exit) : Exit :=
  match ending with
  | done => atEnd
  | aborted => .throws (.frame "aborted while reading frame")
  | failed error => .throws (.source error)

/-! ## The three phases -/

def trailingBytes : Exit :=
  .throws (.frame "unexpected trailing bytes after registry sync frame")

/-- Phase 3. -/
def readTrailer (ending : Ending) (payloadBuf : Bytes) : List (Option Bytes) → Exit
  | [] => ending.read (.returns payloadBuf)
  | value :: _ => if value.getD [] = [] then .returns payloadBuf else trailingBytes

/-- `payloadBuf` and `payloadFilled`. -/
structure Filling where
  buf : Bytes
  filled : Nat

/-- `payloadBuf.set(chunk, payloadFilled)`. -/
def Filling.set (b : Filling) (chunk : Bytes) : Filling :=
  ⟨b.buf.take b.filled ++ chunk ++ b.buf.drop (b.filled + chunk.length), b.filled + chunk.length⟩

/-- `new Uint8Array(payloadLength)`. -/
def Filling.new (payloadLength : Nat) : Filling := ⟨List.replicate payloadLength 0, 0⟩

/-- Phase 2. -/
def readPayload (ending : Ending) (payloadLength : Nat) (b : Filling) :
    List (Option Bytes) → Exit
  | [] =>
      if b.filled < payloadLength then
        ending.read <| .throws <| .frame <|
          "stream ended mid-payload (have " ++ toString b.filled ++ " of " ++
            toString payloadLength ++ " bytes)"
      else readTrailer ending b.buf []
  | value :: chunks =>
      if b.filled < payloadLength then
        if value.getD [] = [] then readPayload ending payloadLength b chunks
        else if payloadLength < b.filled + (value.getD []).length then trailingBytes
        else readPayload ending payloadLength (b.set (value.getD [])) chunks
      else readTrailer ending b.buf (value :: chunks)

/-- The header is complete. -/
def startPayload (ending : Ending) (headerBuf : Bytes) (chunks : List (Option Bytes)) : Exit :=
  let payloadLength := getUint32LE headerBuf
  if REGISTRY_SYNC_MAX_FRAME_BYTES < payloadLength then
    .throws <| .frame <| "incoming frame size " ++ toString payloadLength ++ " exceeds limit"
  else if 4 < headerBuf.length then
    let overflow := headerBuf.drop 4
    if payloadLength < overflow.length then trailingBytes
    else readPayload ending payloadLength ((Filling.new payloadLength).set overflow) chunks
  else readPayload ending payloadLength (Filling.new payloadLength) chunks

/-- Phase 1. -/
def readHeader (ending : Ending) (headerBuf : Option Bytes) : List (Option Bytes) → Exit
  | [] =>
      ending.read <|
        if headerBuf.getD [] = [] then .returns none
        else
          .throws <| .frame <|
            "stream ended mid-header (have " ++ toString (headerBuf.getD []).length ++
              " of 4 bytes)"
  | value :: chunks =>
      if value.getD [] = [] then readHeader ending headerBuf chunks
      else
        let headerBuf := (headerBuf.map (· ++ value.getD [])).getD (value.getD [])
        if 4 ≤ headerBuf.length then startPayload ending headerBuf chunks
        else readHeader ending (some headerBuf) chunks

/-- The answer of the reader, and how often it has called `closeIterator`. -/
def readFrame (source : Source) : Except ReadError (Option Bytes) × Nat :=
  match readHeader source.ending none source.chunks with
  | (.ok value, closed) => (.ok value, closed)
  | (.error error, closed) => (.error error, closed + 1)

/-! ## Frames -/

variable {payload bytes content rest : Bytes} {chunks : List (Option Bytes)} {ending : Ending}

theorem encodeFrame_eq_ok :
    encodeFrame payload = .ok bytes ↔
      payload.length ≤ REGISTRY_SYNC_MAX_FRAME_BYTES ∧ syncFraming.encode payload = bytes := by
  unfold encodeFrame
  split
  case isTrue hlong => simp [not_le.mpr hlong]
  case isFalse hshort => simp [not_lt.mp hshort]

theorem length_encode_frame (payload : Bytes) :
    (syncFraming.encode payload).length = 4 + payload.length := Framing.length_encode payload

theorem setUint32LE_getUint32LE (h : 4 ≤ bytes.length) :
    setUint32LE (getUint32LE bytes) ++ bytes.drop 4 = bytes := by
  obtain ⟨a, b, c, d, rest, rfl⟩ : ∃ a b c d rest, bytes = a :: b :: c :: d :: rest := by
    match bytes, h with
    | a :: b :: c :: d :: rest, _ => exact ⟨a, b, c, d, rest, rfl⟩
  have ha := a.toNat_lt
  have hb := b.toNat_lt
  have hc := c.toNat_lt
  have hd := d.toNat_lt
  have hbyte : ∀ (n : Nat) (x : UInt8), n % 256 = x.toNat → UInt8.ofNat n = x := by
    intro n x hx
    rw [← UInt8.toNat_inj, UInt8.toNat_ofNat', hx]
  simp only [getUint32LE, setUint32LE, List.drop_succ_cons, List.drop_zero, List.cons_append,
    List.nil_append, List.cons.injEq, and_true]
  exact ⟨hbyte _ _ (by omega), hbyte _ _ (by omega), hbyte _ _ (by omega), hbyte _ _ (by omega)⟩

/-- With a complete header, the rest is the rest of the payload. -/
theorem encode_eq_append_iff (h : 4 ≤ bytes.length) (hpayload : payload.length < 2 ^ 32) :
    syncFraming.encode payload = bytes ++ rest ↔
      getUint32LE bytes = payload.length ∧ bytes.drop 4 ++ rest = payload := by
  have hsplit := setUint32LE_getUint32LE h
  constructor
  · intro heq
    have hlength : getUint32LE bytes = payload.length := by
      have hread : getUint32LE (bytes ++ rest) = payload.length := by
        rw [← heq]
        exact getUint32LE_setUint32LE hpayload payload
      rw [← hread]
      obtain ⟨a, b, c, d, tail, rfl⟩ : ∃ a b c d tail, bytes = a :: b :: c :: d :: tail := by
        match bytes, h with
        | a :: b :: c :: d :: tail, _ => exact ⟨a, b, c, d, tail, rfl⟩
      rfl
    refine ⟨hlength, ?_⟩
    have hdrop := congrArg (List.drop 4) heq
    rw [List.drop_append_of_le_length h] at hdrop
    exact hdrop.symm
  · rintro ⟨hlength, rfl⟩
    rw [← hsplit, List.append_assoc]
    exact congrArg (setUint32LE · ++ _) hlength.symm

/-! ## Chunks -/

/-- The bytes of the chunks. -/
def bytesOf (chunks : List (Option Bytes)) : Bytes := chunks.flatMap fun value => value.getD []

@[simp] theorem bytesOf_nil : bytesOf [] = [] := rfl

@[simp] theorem bytesOf_cons (value : Option Bytes) (chunks : List (Option Bytes)) :
    bytesOf (value :: chunks) = value.getD [] ++ bytesOf chunks := rfl

@[simp] theorem bytesOf_append (before after : List (Option Bytes)) :
    bytesOf (before ++ after) = bytesOf before ++ bytesOf after := List.flatMap_append

/-- The last chunk has bytes. -/
def EndsFull (chunks : List (Option Bytes)) : Prop :=
  ∀ value ∈ chunks.getLast?, value.getD [] ≠ []

/-- The first chunk has no bytes. -/
def StartsEmpty (chunks : List (Option Bytes)) : Prop :=
  ∀ value ∈ chunks.head?, value.getD [] = []

theorem endsFull_cons {value : Option Bytes} (hne : chunks ≠ []) :
    EndsFull (value :: chunks) ↔ EndsFull chunks := by
  obtain ⟨next, chunks, rfl⟩ := List.exists_cons_of_ne_nil hne
  rw [EndsFull, EndsFull, List.getLast?_cons_cons]

theorem endsFull_singleton {value : Option Bytes} : EndsFull [value] ↔ value.getD [] ≠ [] := by
  simp [EndsFull]

theorem eq_nil_of_endsFull (h : EndsFull chunks) (hbytes : bytesOf chunks = []) : chunks = [] := by
  cases chunks using List.reverseRecOn with
  | nil => rfl
  | append_singleton chunks value =>
      rw [bytesOf_append, List.append_eq_nil_iff] at hbytes
      refine absurd ?_ (h value (by simp))
      simpa using hbytes.2

/-- Chunks without the empty ones at the end. -/
theorem exists_endsFull (chunks : List (Option Bytes)) :
    ∃ before after, chunks = before ++ after ∧ EndsFull before ∧ bytesOf after = [] := by
  induction chunks using List.reverseRecOn with
  | nil => exact ⟨[], [], rfl, by simp [EndsFull], rfl⟩
  | append_singleton chunks value ih =>
      by_cases hvalue : value.getD [] = []
      · obtain ⟨before, after, rfl, hfull, hafter⟩ := ih
        exact ⟨before, after ++ [value], by simp, hfull, by simp [hafter, hvalue]⟩
      · exact ⟨chunks ++ [value], [], by simp, by simpa [EndsFull] using hvalue, rfl⟩

/-! ## Every exit -/

/-- A value is returned after the iterator is closed, an error is thrown before, and it is a
`RegistrySyncFrameError` or the one of the stream. -/
def Exit.Regular (ending : Ending) (exit : Exit) : Prop :=
  (∃ value, exit = .returns value) ∨ (∃ message, exit = .throws (.frame message)) ∨
    ∃ error, ending = .failed error ∧ exit = .throws (.source error)

theorem Exit.regular_returns (value : Option Bytes) : (returns value).Regular ending :=
  .inl ⟨value, rfl⟩

theorem Exit.regular_throws (message : String) : (throws (.frame message)).Regular ending :=
  .inr (.inl ⟨message, rfl⟩)

theorem Exit.Regular.read {atEnd : Exit} (h : atEnd.Regular ending) :
    (ending.read atEnd).Regular ending := by
  cases ending with
  | done => exact h
  | aborted => exact Exit.regular_throws _
  | failed error => exact .inr (.inr ⟨error, rfl, rfl⟩)

theorem regular_readTrailer (payloadBuf : Bytes) :
    (readTrailer ending payloadBuf chunks).Regular ending := by
  cases chunks with
  | nil => exact (Exit.regular_returns _).read
  | cons value chunks =>
      rw [readTrailer]
      split
      · exact Exit.regular_returns _
      · exact Exit.regular_throws _

theorem regular_readPayload (payloadLength : Nat) (b : Filling) :
    (readPayload ending payloadLength b chunks).Regular ending := by
  induction chunks generalizing b with
  | nil =>
      rw [readPayload]
      split
      · exact (Exit.regular_throws _).read
      · exact regular_readTrailer _
  | cons value chunks ih =>
      rw [readPayload]
      split_ifs
      · exact ih b
      · exact Exit.regular_throws _
      · exact ih _
      · exact regular_readTrailer _

theorem regular_startPayload (headerBuf : Bytes) :
    (startPayload ending headerBuf chunks).Regular ending := by
  unfold startPayload
  dsimp only
  split_ifs
  · exact Exit.regular_throws _
  · exact Exit.regular_throws _
  · exact regular_readPayload _ _
  · exact regular_readPayload _ _

theorem regular_readHeader (headerBuf : Option Bytes) :
    (readHeader ending headerBuf chunks).Regular ending := by
  induction chunks generalizing headerBuf with
  | nil =>
      rw [readHeader]
      refine Exit.Regular.read ?_
      split
      · exact Exit.regular_returns _
      · exact Exit.regular_throws _
  | cons value chunks ih =>
      rw [readHeader]
      dsimp only
      split_ifs
      · exact ih _
      · exact regular_startPayload _
      · exact ih _

/-- How the answer of the reader is left. -/
theorem readFrame_regular (source : Source) :
    (∃ value, (readFrame source).1 = .ok value) ∨
      (∃ message, (readFrame source).1 = .error (.frame message)) ∨
        ∃ error, source.ending = .failed error ∧ (readFrame source).1 = .error (.source error) := by
  have hregular : (readHeader source.ending none source.chunks).Regular source.ending :=
    regular_readHeader none
  unfold readFrame
  rcases hregular with ⟨value, h⟩ | ⟨message, h⟩ | ⟨error, hfailed, h⟩
  · rw [h]
    exact .inl ⟨value, rfl⟩
  · rw [h]
    exact .inr (.inl ⟨message, rfl⟩)
  · rw [h]
    exact .inr (.inr ⟨error, hfailed, rfl⟩)

/-- The iterator is closed once, however the reading ends. -/
theorem closed_eq_one (source : Source) : (readFrame source).2 = 1 := by
  have hregular : (readHeader source.ending none source.chunks).Regular source.ending :=
    regular_readHeader none
  unfold readFrame
  rcases hregular with ⟨value, h⟩ | ⟨message, h⟩ | ⟨error, -, h⟩
  · rw [h]
    rfl
  · rw [h]
    rfl
  · rw [h]
    rfl

/-! ## What is read up to the end of the stream -/

/-- A buffer that holds the beginning of the payload. -/
def Filling.holding (payloadLength : Nat) (content : Bytes) : Filling :=
  ⟨content ++ List.replicate (payloadLength - content.length) 0, content.length⟩

theorem Filling.holding_set (payloadLength : Nat) (content chunk : Bytes) :
    (holding payloadLength content).set chunk = holding payloadLength (content ++ chunk) := by
  have hdrop : (content ++ List.replicate (payloadLength - content.length) (0 : UInt8)).drop
      (content.length + chunk.length) =
        List.replicate (payloadLength - (content.length + chunk.length)) 0 := by
    rw [← List.drop_drop, List.drop_left, List.drop_replicate, Nat.sub_sub]
  simp only [set, holding, List.take_left, hdrop, List.length_append]

theorem Filling.new_eq (payloadLength : Nat) : new payloadLength = holding payloadLength [] := rfl

@[simp] theorem Exit.returns_inj {value value' : Option Bytes} :
    returns value = returns value' ↔ value = value' := by
  simp [returns]

@[simp] theorem Exit.throws_ne_returns {error : ReadError} {value : Option Bytes} :
    throws error ≠ returns value := by
  simp [returns, throws]

@[simp] theorem startsEmpty_nil : StartsEmpty [] := by
  simp [StartsEmpty]

@[simp] theorem startsEmpty_cons {value : Option Bytes} :
    StartsEmpty (value :: chunks) ↔ value.getD [] = [] := by
  simp [StartsEmpty]

theorem readTrailer_eq {value : Option Bytes} :
    readTrailer .done payload chunks = .returns value ↔
      value = some payload ∧ StartsEmpty chunks := by
  cases chunks with
  | nil =>
      rw [readTrailer, Ending.read, Exit.returns_inj]
      simp [eq_comm]
  | cons first chunks =>
      rw [readTrailer, startsEmpty_cons]
      split
      case isTrue hfirst =>
        rw [Exit.returns_inj]
        simp [hfirst, eq_comm]
      case isFalse hfirst => simp [trailingBytes, hfirst]

/-- The chunks complete a text, and the next reading sees nothing. -/
def Brings (complete : Bytes → Prop) (content : Bytes) (chunks : List (Option Bytes)) : Prop :=
  ∃ before after, chunks = before ++ after ∧ complete (content ++ bytesOf before) ∧
    EndsFull before ∧ StartsEmpty after

variable {complete : Bytes → Prop}

theorem brings_nil : Brings complete content [] ↔ complete content := by
  constructor
  · rintro ⟨before, after, hsplit, hcomplete, -, -⟩
    obtain ⟨rfl, rfl⟩ := List.append_eq_nil_iff.mp hsplit.symm
    simpa using hcomplete
  · intro hcomplete
    exact ⟨[], [], rfl, by simpa using hcomplete, by simp [EndsFull], startsEmpty_nil⟩

/-- With nothing missing, only the next chunk counts. -/
theorem brings_of_complete (hmore : ∀ more, complete (content ++ more) → more = []) :
    Brings complete content chunks ↔ complete content ∧ StartsEmpty chunks := by
  constructor
  · rintro ⟨before, after, rfl, hcomplete, hfull, hafter⟩
    obtain rfl := eq_nil_of_endsFull hfull (hmore _ hcomplete)
    rw [bytesOf_nil, List.append_nil] at hcomplete
    exact ⟨hcomplete, hafter⟩
  · rintro ⟨hcomplete, hempty⟩
    exact ⟨[], chunks, rfl, by simpa using hcomplete, by simp [EndsFull], hempty⟩

/-- A chunk that comes before the text is complete belongs to it. -/
theorem brings_cons {first : Option Bytes} (h : ¬ complete content) :
    Brings complete content (first :: chunks) ↔
      Brings complete (content ++ first.getD []) chunks := by
  constructor
  · rintro ⟨before, after, hsplit, hcomplete, hfull, hafter⟩
    cases before with
    | nil =>
        rw [bytesOf_nil, List.append_nil] at hcomplete
        exact absurd hcomplete h
    | cons first' before =>
        obtain ⟨rfl, rfl⟩ := List.cons.inj hsplit
        rw [bytesOf_cons, ← List.append_assoc] at hcomplete
        refine ⟨before, after, rfl, hcomplete, ?_, hafter⟩
        cases before with
        | nil => simp [EndsFull]
        | cons next before => exact (endsFull_cons (List.cons_ne_nil _ _)).mp hfull
  · rintro ⟨before, after, rfl, hcomplete, hfull, hafter⟩
    refine ⟨first :: before, after, rfl, ?_, ?_, hafter⟩
    · rw [bytesOf_cons, ← List.append_assoc]
      exact hcomplete
    · cases before with
      | nil =>
          -- the text was not complete, so this chunk has bytes
          rw [endsFull_singleton]
          intro hempty
          rw [bytesOf_nil, List.append_nil, hempty, List.append_nil] at hcomplete
          exact h hcomplete
      | cons next before => exact (endsFull_cons (List.cons_ne_nil _ _)).mpr hfull

/-- The value is the whole payload. -/
def IsPayload (payloadLength : Nat) (value : Option Bytes) (content : Bytes) : Prop :=
  value = some content ∧ content.length = payloadLength

theorem not_brings_of_long {payloadLength : Nat} {value : Option Bytes}
    (h : payloadLength < content.length) :
    ¬ Brings (IsPayload payloadLength value) content chunks := by
  rintro ⟨before, after, -, ⟨-, hlength⟩, -, -⟩
  rw [List.length_append] at hlength
  omega

theorem readPayload_full {payloadLength : Nat} {value : Option Bytes}
    (hfull : content.length = payloadLength) :
    readTrailer .done (Filling.holding payloadLength content).buf chunks = .returns value ↔
      Brings (IsPayload payloadLength value) content chunks := by
  subst hfull
  have hmore : ∀ more, IsPayload content.length value (content ++ more) → more = [] := by
    rintro more ⟨-, hlength⟩
    rw [List.length_append] at hlength
    exact List.eq_nil_of_length_eq_zero (by omega)
  rw [brings_of_complete hmore, Filling.holding, Nat.sub_self, List.replicate_zero,
    List.append_nil, readTrailer_eq]
  simp [IsPayload]

theorem readPayload_eq {payloadLength : Nat} {value : Option Bytes}
    (hcontent : content.length ≤ payloadLength) :
    readPayload .done payloadLength (Filling.holding payloadLength content) chunks =
        .returns value ↔ Brings (IsPayload payloadLength value) content chunks := by
  have hfilled : (Filling.holding payloadLength content).filled = content.length := rfl
  induction chunks generalizing content with
  | nil =>
      rw [readPayload, hfilled]
      split
      case isTrue hshort =>
        rw [Ending.read, brings_nil]
        constructor
        · intro h
          exact absurd h Exit.throws_ne_returns
        · rintro ⟨-, hlength⟩
          omega
      case isFalse hfull => exact readPayload_full (by omega)
  | cons first chunks ih =>
      rw [readPayload, hfilled]
      split
      case isTrue hshort =>
        have hmissing : ¬ IsPayload payloadLength value content := fun h => hshort.ne h.2
        rw [brings_cons hmissing]
        -- the chunk is empty, too long, or the next part of the payload
        split_ifs with hempty hlong
        · rw [hempty, List.append_nil]
          exact ih hcontent rfl
        · rw [← List.length_append] at hlong
          constructor
          · intro h
            exact absurd h Exit.throws_ne_returns
          · intro h
            exact absurd h (not_brings_of_long hlong)
        · rw [Filling.holding_set]
          refine ih ?_ rfl
          rw [List.length_append]
          omega
      case isFalse hfull => exact readPayload_full (by omega)

/-- The bytes are the frame of the value. -/
def IsFrame (value : Option Bytes) (bytes : Bytes) : Prop :=
  ∃ payload, value = some payload ∧ encodeFrame payload = .ok bytes

theorem four_le_of_isFrame {value : Option Bytes} (h : IsFrame value bytes) : 4 ≤ bytes.length := by
  obtain ⟨payload, -, hencode⟩ := h
  rw [← (encodeFrame_eq_ok.mp hencode).2, length_encode_frame]
  exact Nat.le_add_right _ _

/-- Behind the header of a frame comes its payload. -/
theorem isFrame_append_iff {headerBuf : Bytes} {value : Option Bytes} (h : 4 ≤ headerBuf.length) :
    IsFrame value (headerBuf ++ rest) ↔
      getUint32LE headerBuf ≤ REGISTRY_SYNC_MAX_FRAME_BYTES ∧
        IsPayload (getUint32LE headerBuf) value (headerBuf.drop 4 ++ rest) := by
  have hbound : REGISTRY_SYNC_MAX_FRAME_BYTES < 2 ^ 32 := by decide
  constructor
  · rintro ⟨payload, rfl, hencode⟩
    obtain ⟨hle, hframe⟩ := encodeFrame_eq_ok.mp hencode
    obtain ⟨hlength, hpayload⟩ := (encode_eq_append_iff h (hle.trans_lt hbound)).mp hframe
    rw [hlength, hpayload]
    exact ⟨hle, rfl, rfl⟩
  · rintro ⟨hle, rfl, hlength⟩
    rw [← hlength] at hle
    refine ⟨_, rfl, encodeFrame_eq_ok.mpr ⟨hle, ?_⟩⟩
    exact (encode_eq_append_iff h (hle.trans_lt hbound)).mpr ⟨hlength.symm, rfl⟩

theorem startPayload_eq {headerBuf : Bytes} {value : Option Bytes} (h : 4 ≤ headerBuf.length) :
    startPayload .done headerBuf chunks = .returns value ↔
      Brings (IsFrame value) headerBuf chunks := by
  have hbrings : Brings (IsFrame value) headerBuf chunks ↔
      getUint32LE headerBuf ≤ REGISTRY_SYNC_MAX_FRAME_BYTES ∧
        Brings (IsPayload (getUint32LE headerBuf) value) (headerBuf.drop 4) chunks := by
    simp only [Brings, isFrame_append_iff h]
    constructor
    · rintro ⟨before, after, hsplit, ⟨hle, hpayload⟩, hends⟩
      exact ⟨hle, before, after, hsplit, hpayload, hends⟩
    · rintro ⟨hle, before, after, hsplit, hpayload, hends⟩
      exact ⟨before, after, hsplit, ⟨hle, hpayload⟩, hends⟩
  rw [hbrings]
  unfold startPayload
  dsimp only
  split_ifs with hlimit hmore hlong
  · constructor
    · intro hthrows
      exact absurd hthrows Exit.throws_ne_returns
    · rintro ⟨hle, -⟩
      exact absurd hle (not_le.mpr hlimit)
  · constructor
    · intro hthrows
      exact absurd hthrows Exit.throws_ne_returns
    · rintro ⟨-, hfits⟩
      exact absurd hfits (not_brings_of_long hlong)
  · rw [Filling.new_eq, Filling.holding_set, List.nil_append, readPayload_eq (not_lt.mp hlong),
      and_iff_right (not_lt.mp hlimit)]
  · -- the header came alone
    have hnone : headerBuf.drop 4 = [] := List.drop_eq_nil_of_le (by omega)
    rw [Filling.new_eq, hnone, readPayload_eq (Nat.zero_le _), and_iff_right (not_lt.mp hlimit)]

/-- The stream has brought nothing and ends. -/
theorem readHeader_eq {headerBuf : Option Bytes} {value : Option Bytes}
    (h : (headerBuf.getD []).length < 4) :
    readHeader .done headerBuf chunks = .returns value ↔
      (value = none ∧ headerBuf.getD [] ++ bytesOf chunks = []) ∨
        Brings (IsFrame value) (headerBuf.getD []) chunks := by
  have hmissing : ¬ IsFrame value (headerBuf.getD []) := by
    intro hframe
    have hlong := four_le_of_isFrame hframe
    omega
  induction chunks generalizing headerBuf with
  | nil =>
      rw [readHeader, Ending.read, brings_nil, bytesOf_nil, List.append_nil]
      split
      case isTrue hempty =>
        rw [hempty] at hmissing ⊢
        simp [hmissing, eq_comm]
      case isFalse hbegun => simp [hbegun, hmissing]
  | cons first chunks ih =>
      rw [readHeader, brings_cons hmissing, bytesOf_cons]
      split
      -- an empty chunk before the header is complete is skipped
      case isTrue hempty =>
        rw [hempty, List.append_nil, List.nil_append]
        exact ih h hmissing
      case isFalse hbytes =>
        have hjoined : (headerBuf.map (· ++ first.getD [])).getD (first.getD []) =
            headerBuf.getD [] ++ first.getD [] := by
          cases headerBuf <;> rfl
        have hnotEmpty : headerBuf.getD [] ++ (first.getD [] ++ bytesOf chunks) ≠ [] := by
          simp [hbytes]
        dsimp only
        rw [hjoined]
        split
        -- the header is complete, and what is behind it begins the payload
        case isTrue hlong =>
          rw [startPayload_eq hlong]
          simp [hnotEmpty]
        case isFalse hshort =>
          have hlength := not_le.mp hshort
          rw [← List.append_assoc]
          refine ih hlength ?_
          intro hframe
          exact hshort (four_le_of_isFrame hframe)

theorem readFrame_eq_ok_iff {value : Option Bytes} (source : Source) :
    (readFrame source).1 = .ok value ↔
      readHeader source.ending none source.chunks = .returns value := by
  have hregular : (readHeader source.ending none source.chunks).Regular source.ending :=
    regular_readHeader none
  unfold readFrame
  rcases hregular with ⟨value', h⟩ | ⟨message, h⟩ | ⟨error, -, h⟩
  · rw [h]
    simp [Exit.returns]
  · rw [h]
    simp [Exit.throws, Exit.returns]
  · rw [h]
    simp [Exit.throws, Exit.returns]

/-- At the end of an empty stream the reader returns nothing, else what the chunks bring. -/
theorem readFrame_eq_ok {value : Option Bytes} :
    (readFrame ⟨chunks, .done⟩).1 = .ok value ↔
      (value = none ∧ bytesOf chunks = []) ∨ Brings (IsFrame value) [] chunks := by
  rw [readFrame_eq_ok_iff]
  exact readHeader_eq (by decide)

theorem brings_frame_iff {value : Option Bytes} :
    Brings (IsFrame value) [] chunks ↔
      ∃ payload, value = some payload ∧ Brings (IsFrame (some payload)) [] chunks := by
  constructor
  · intro h
    have hbrings := h
    obtain ⟨-, -, -, ⟨payload, rfl, -⟩, -, -⟩ := hbrings
    exact ⟨payload, rfl, h⟩
  · rintro ⟨payload, rfl, h⟩
    exact h

/-! ## The whole stream -/

/-- The reader answers as the frame, or its absence, in the bytes of the whole stream asks. -/
structure ReadsWhole (chunks : List (Option Bytes)) : Prop where
  payload : ∀ payload, (readFrame ⟨chunks, .done⟩).1 = .ok (some payload) ↔
    encodeFrame payload = .ok (bytesOf chunks)
  nothing : (readFrame ⟨chunks, .done⟩).1 = .ok none ↔ bytesOf chunks = []
  refused : bytesOf chunks ≠ [] → (∀ payload, encodeFrame payload ≠ .ok (bytesOf chunks)) →
    ∃ message, (readFrame ⟨chunks, .done⟩).1 = .error (.frame message)

/-- Right behind the chunk that completes a frame comes an empty one, and then bytes. -/
def HidesBytes (chunks : List (Option Bytes)) : Prop :=
  ∃ before gap after payload, chunks = before ++ gap :: after ∧
    encodeFrame payload = .ok (bytesOf before) ∧ EndsFull before ∧ gap.getD [] = [] ∧
      bytesOf after ≠ []

theorem isFrame_some_iff : IsFrame (some payload) bytes ↔ encodeFrame payload = .ok bytes := by
  constructor
  · rintro ⟨payload', hsame, hencode⟩
    obtain rfl := Option.some.inj hsame
    exact hencode
  · intro hencode
    exact ⟨payload, rfl, hencode⟩

/-- A frame of the whole stream is brought by the chunks up to the last one with bytes. -/
theorem brings_of_encodeFrame (h : encodeFrame payload = .ok (bytesOf chunks)) :
    Brings (IsFrame (some payload)) [] chunks := by
  obtain ⟨before, after, rfl, hfull, hafter⟩ := exists_endsFull chunks
  rw [bytesOf_append, hafter, List.append_nil] at h
  refine ⟨before, after, rfl, isFrame_some_iff.mpr h, hfull, ?_⟩
  cases after with
  | nil => exact startsEmpty_nil
  | cons first after =>
      rw [bytesOf_cons, List.append_eq_nil_iff] at hafter
      exact startsEmpty_cons.mpr hafter.1

/-- What the chunks bring is the frame of the whole stream, unless bytes are hidden. -/
theorem encodeFrame_of_brings (hhidden : ¬ HidesBytes chunks)
    (h : Brings (IsFrame (some payload)) [] chunks) :
    encodeFrame payload = .ok (bytesOf chunks) := by
  obtain ⟨before, after, rfl, hframe, hfull, hafter⟩ := h
  have hencode := isFrame_some_iff.mp hframe
  cases after with
  | nil => simpa using hencode
  | cons gap after =>
      have hgap := startsEmpty_cons.mp hafter
      have hnothing : bytesOf after = [] := by
        by_contra hbytes
        exact hhidden ⟨before, gap, after, payload, rfl, hencode, hfull, hgap, hbytes⟩
      simpa [hgap, hnothing] using hencode

theorem brings_of_hidesBytes (h : HidesBytes chunks) :
    ∃ payload, Brings (IsFrame (some payload)) [] chunks ∧
      encodeFrame payload ≠ .ok (bytesOf chunks) := by
  obtain ⟨before, gap, after, payload, rfl, hencode, hfull, hgap, hbytes⟩ := h
  refine ⟨payload, ⟨before, gap :: after, rfl, isFrame_some_iff.mpr hencode, hfull,
    startsEmpty_cons.mpr hgap⟩, ?_⟩
  intro hwhole
  rw [hencode, bytesOf_append, bytesOf_cons, hgap] at hwhole
  simp [hbytes] at hwhole

theorem readsWhole_of_not_hidesBytes (h : ¬ HidesBytes chunks) : ReadsWhole chunks where
  payload payload := by
    rw [readFrame_eq_ok]
    constructor
    · rintro (⟨hnone, -⟩ | hbrings)
      · cases hnone
      · exact encodeFrame_of_brings h hbrings
    · intro hencode
      exact .inr (brings_of_encodeFrame hencode)
  nothing := by
    rw [readFrame_eq_ok, brings_frame_iff]
    simp
  refused hbytes hframe := by
    have hregular := readFrame_regular ⟨chunks, .done⟩
    rcases hregular with ⟨value, hvalue⟩ | hmessage | ⟨error, hfailed, -⟩
    · rcases readFrame_eq_ok.mp hvalue with ⟨-, hempty⟩ | hbrings
      · exact absurd hempty hbytes
      · obtain ⟨payload, rfl, hbrings⟩ := brings_frame_iff.mp hbrings
        exact absurd (encodeFrame_of_brings h hbrings) (hframe payload)
    · exact hmessage
    · cases hfailed

/-- The iterator is closed on every exit, and the reader is the one of the whole stream exactly
if no bytes are hidden behind an empty chunk. -/
theorem readFrame_whole_iff (chunks : List (Option Bytes)) :
    (∀ source, (readFrame source).2 = 1) ∧ (ReadsWhole chunks ↔ ¬ HidesBytes chunks) := by
  refine ⟨closed_eq_one, ?_, readsWhole_of_not_hidesBytes⟩
  intro hreads hhidden
  obtain ⟨payload, hbrings, hother⟩ := brings_of_hidesBytes hhidden
  exact hother ((hreads.payload payload).mp (readFrame_eq_ok.mpr (.inr hbrings)))

/-- The frame of one byte, an empty chunk and another byte. -/
theorem hidden_byte_accepted :
    (readFrame ⟨[some [1, 0, 0, 0, 7], some [], some [9]], .done⟩).1 = .ok (some [7]) ∧
      encodeFrame [7] = .ok [1, 0, 0, 0, 7] ∧
      ¬ ReadsWhole [some [1, 0, 0, 0, 7], some [], some [9]] := by
  have hread : (readFrame ⟨[some [1, 0, 0, 0, 7], some [], some [9]], .done⟩).1 = .ok (some [7]) := by
    decide +kernel
  have hencode : encodeFrame [7] = .ok [1, 0, 0, 0, 7] := by decide +kernel
  refine ⟨hread, hencode, fun hreads => ?_⟩
  have hwhole := (hreads.payload [7]).mp hread
  rw [hencode] at hwhole
  exact absurd hwhole (by decide +kernel)

end ThinkLocal.RegistrySync
