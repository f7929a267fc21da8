import ThinkLocal.Ipc.UnixSocket

/-!
# Frames over the Unix socket

How the buffer reads the frames of a stream in pieces.  The client gets every message as long as the
cap of the buffer has room for it.  The loop of the server ends with a frame that throws, and leaves
the frames behind it for the next data event.
-/

namespace ThinkLocal.Ipc

open Foundation Js Framing

variable {σ ι : Type} {handle : σ → Bytes → σ × Verdict} {perform : ι → σ → σ}
  {maxSize n : Nat} {payloads : List Bytes} {r : Receiver σ} {b : FrameBuffer} {rest chunk : Bytes}

/-! ## The buffer -/

namespace FrameBuffer

/-- The length is that of the chunks. -/
def Sound (b : FrameBuffer) : Prop := b.totalLength = b.bytes.length

theorem combined_eq (h : b.Sound) : b.combined = b.bytes := by
  unfold combined bytes
  cases hchunks : b.chunks with
  | nil => rfl
  | cons chunk rest =>
      dsimp only
      split_ifs with hfirst
      · -- there is nothing behind the first chunk
        rw [Sound, bytes, hchunks, List.flatten_cons, List.length_append] at h
        have hempty : rest.flatten = [] := List.length_eq_zero_iff.mp (by omega)
        rw [List.flatten_cons, hempty, List.append_nil]
      · rfl

/-- The buffer of a rest. -/
def ofRest (rest : Bytes) : FrameBuffer := ⟨if 0 < rest.length then [rest] else [], rest.length⟩

theorem bytes_ofRest (rest : Bytes) : (ofRest rest).bytes = rest := by
  unfold ofRest bytes
  cases rest with
  | nil => rfl
  | cons byte rest => simp

theorem sound_ofRest (rest : Bytes) : (ofRest rest).Sound := by
  rw [Sound, bytes_ofRest]
  rfl

theorem sound_empty : empty.Sound := rfl

theorem push_eq_some {pushed : FrameBuffer} (hpush : b.push maxSize chunk = some pushed)
    (h : b.Sound) : pushed.Sound ∧ pushed.bytes = b.bytes ++ chunk ∧
      (b.bytes ++ chunk).length ≤ maxSize * 4 := by
  rw [push] at hpush
  split_ifs at hpush with hcap
  obtain rfl := Option.some.inj hpush
  have hbytes : FrameBuffer.bytes ⟨b.chunks ++ [chunk], b.totalLength + chunk.length⟩ =
      b.bytes ++ chunk := by
    simp [bytes]
  rw [Sound] at h
  refine ⟨?_, hbytes, ?_⟩
  · rw [Sound, hbytes, List.length_append, h]
  · rw [List.length_append, ← h]
    exact not_lt.mp hcap

theorem push_isSome (h : b.Sound) (hcap : (b.bytes ++ chunk).length ≤ maxSize * 4) :
    (b.push maxSize chunk).isSome := by
  rw [Sound] at h
  rw [List.length_append, ← h] at hcap
  rw [push, if_neg (not_lt.mpr hcap)]
  rfl

def ofNext : Next UInt8 → ReadResult
  | .incomplete => .incomplete
  | .refused => .refused
  | .frame payload rest => .frame payload (ofRest rest)

/-- The buffer is read as the bytes in it. -/
theorem read_eq (h : b.Sound) : b.read maxSize = ofNext (socketFraming.next maxSize b.bytes) := by
  have htotal : b.totalLength = b.bytes.length := h
  have hheader : socketFraming.headerSize = headerSize := rfl
  have hlengthOf : socketFraming.lengthOf b.bytes = readUInt32BE b.bytes := rfl
  rw [read, combined_eq h, htotal, Framing.next, hheader, hlengthOf]
  dsimp only
  by_cases hshort : b.bytes.length < headerSize
  · rw [if_pos hshort, if_pos hshort]
    rfl
  rw [if_neg hshort, if_neg hshort]
  by_cases hlimit : maxSize < readUInt32BE b.bytes
  · rw [if_pos hlimit, if_pos hlimit]
    rfl
  rw [if_neg hlimit, if_neg hlimit]
  by_cases hcut : b.bytes.length < headerSize + readUInt32BE b.bytes
  · rw [if_pos hcut, if_pos hcut]
    rfl
  · rw [if_neg hcut, if_neg hcut]
    rfl

theorem not_holdsFrame (h : socketFraming.next maxSize b.bytes = .incomplete) : ¬ b.holdsFrame := by
  rintro ⟨hheader, hlength⟩
  rw [Framing.next] at h
  split_ifs at h with hshort hlimit hcut
  · exact absurd hheader (not_le.mpr hshort)
  · exact absurd hlength (not_le.mpr hcut)

theorem holdsFrame_of_bytes {payload : Bytes} (h : socketFraming.Fits maxSize payload)
    (hbytes : b.bytes = socketFraming.encode payload ++ rest) : b.holdsFrame := by
  have hlength : readUInt32BE b.bytes = payload.length := by
    rw [hbytes, Framing.encode, List.append_assoc]
    exact socketFraming.lengthOf_append _ h.2 (payload ++ rest)
  have hsize : b.bytes.length = headerSize + payload.length + rest.length := by
    rw [hbytes, List.length_append, length_encode]
    rfl
  rw [holdsFrame, hlength]
  omega

end FrameBuffer

open FrameBuffer

/-! ## One data event -/

/-- The loop hands the frames of the buffer to the handler, as far as that goes on. -/
theorem drain_eq (handle : σ → Bytes → σ × Verdict)
    (hfits : ∀ payload ∈ payloads, socketFraming.Fits maxSize payload)
    (hrest : socketFraming.next maxSize rest = .incomplete) {fuel : Nat}
    (hfuel : payloads.length < fuel) (hsound : r.buffer.Sound)
    (hbytes : r.buffer.bytes = socketFraming.encodeAll payloads ++ rest) :
    (drain handle maxSize fuel r).state = (consume handle r.state payloads).1 ∧
      (drain handle maxSize fuel r).failed = (r.failed || (consume handle r.state payloads).2.2) ∧
      (drain handle maxSize fuel r).buffer.Sound ∧
      (drain handle maxSize fuel r).buffer.bytes =
        socketFraming.encodeAll (consume handle r.state payloads).2.1 ++ rest := by
  induction payloads generalizing fuel r with
  | nil =>
      obtain ⟨fuel, rfl⟩ := Nat.exists_eq_succ_of_ne_zero (Nat.pos_iff_ne_zero.mp hfuel)
      have hbytes' : r.buffer.bytes = rest := hbytes
      -- only the rest is left, and it is no frame yet
      have hread : r.buffer.read maxSize = .incomplete := by
        rw [read_eq hsound, hbytes', hrest]
        rfl
      rw [drain, hread]
      exact ⟨rfl, (Bool.or_false _).symm, hsound, hbytes⟩
  | cons payload payloads ih =>
      obtain ⟨fuel, rfl⟩ := Nat.exists_eq_succ_of_ne_zero (Nat.ne_of_gt (Nat.zero_lt_of_lt hfuel))
      have hnext := next_encode (F := socketFraming) (hfits payload List.mem_cons_self)
        (socketFraming.encodeAll payloads ++ rest)
      have hread : r.buffer.read maxSize =
          .frame payload (ofRest (socketFraming.encodeAll payloads ++ rest)) := by
        rw [read_eq hsound, hbytes, encodeAll_cons, List.append_assoc, hnext]
        rfl
      have hsound' := sound_ofRest (socketFraming.encodeAll payloads ++ rest)
      have hbytes' := bytes_ofRest (socketFraming.encodeAll payloads ++ rest)
      rw [drain, hread, consume]
      dsimp only
      rcases hhandle : handle r.state payload with ⟨state, verdict⟩
      -- the handler decides whether the loop reads on
      cases verdict with
      | next =>
          exact ih (fun p hp => hfits p (List.mem_cons_of_mem _ hp))
            (r := ⟨ofRest (socketFraming.encodeAll payloads ++ rest), state, r.failed⟩)
            (Nat.lt_of_succ_lt_succ hfuel) hsound' hbytes'
      | stop => exact ⟨rfl, (Bool.or_false _).symm, hsound', hbytes'⟩
      | fail => exact ⟨rfl, (Bool.or_true _).symm, hsound', hbytes'⟩

/-- After `n` bytes of the frames nothing has failed, and the buffer holds the cut. -/
structure Steady (payloads : List Bytes) (n : Nat) (r : Receiver σ) : Prop where
  open_ : r.failed = false
  sound : r.buffer.Sound
  bytes_eq : r.buffer.bytes = socketFraming.cut payloads n

theorem encodeAll_length_ge (payloads : List Bytes) :
    payloads.length ≤ (socketFraming.encodeAll payloads).length := by
  induction payloads with
  | nil => exact le_rfl
  | cons payload payloads ih =>
      have hpos := socketFraming.headerSize_pos
      rw [List.length_cons, encodeAll_cons, List.length_append, length_encode]
      omega

/-- A data event: the buffer has no room, or the payloads that become complete are handed on. -/
theorem receive_cases (h : Steady payloads n r)
    (hfits : ∀ payload ∈ payloads, socketFraming.Fits maxSize payload)
    (hn : n ≤ (socketFraming.encodeAll payloads).length)
    (hpiece : (socketFraming.encodeAll payloads).take n ++ chunk <+: socketFraming.encodeAll payloads) :
    (maxSize * 4 < (socketFraming.cut payloads n ++ chunk).length ∧
        (receive handle maxSize r chunk).failed = true) ∨
      ((socketFraming.cut payloads n ++ chunk).length ≤ maxSize * 4 ∧
        (receive handle maxSize r chunk).state =
          (consume handle r.state (socketFraming.between payloads n (n + chunk.length))).1 ∧
        (receive handle maxSize r chunk).failed =
          (consume handle r.state (socketFraming.between payloads n (n + chunk.length))).2.2 ∧
        (receive handle maxSize r chunk).buffer.Sound ∧
        (receive handle maxSize r chunk).buffer.bytes =
          socketFraming.encodeAll
              (consume handle r.state (socketFraming.between payloads n (n + chunk.length))).2.1 ++
            socketFraming.cut payloads (n + chunk.length)) := by
  rw [receive, if_neg (by rw [h.open_]; decide)]
  by_cases hcap : (socketFraming.cut payloads n ++ chunk).length ≤ maxSize * 4
  · obtain ⟨pushed, hpush⟩ := Option.isSome_iff_exists.mp
      (push_isSome h.sound (by rwa [h.bytes_eq]))
    obtain ⟨hsound, hbytes, -⟩ := push_eq_some hpush h.sound
    rw [h.bytes_eq, cut_append hpiece hn] at hbytes
    -- every payload takes a byte at least, so the fuel is enough
    have hfuel : (socketFraming.between payloads n (n + chunk.length)).length <
        pushed.totalLength + 1 := by
      have hge := encodeAll_length_ge (socketFraming.between payloads n (n + chunk.length))
      have htotal : pushed.totalLength = pushed.bytes.length := hsound
      rw [htotal, hbytes, List.length_append]
      omega
    have hbetween : ∀ payload ∈ socketFraming.between payloads n (n + chunk.length),
        socketFraming.Fits maxSize payload :=
      fun p hp => hfits p (List.mem_of_mem_take (List.mem_of_mem_drop hp))
    have hdrain := drain_eq handle (r := { r with buffer := pushed }) hbetween
      (next_cut hfits (n + chunk.length)) hfuel hsound hbytes
    rw [hpush]
    refine .inr ⟨hcap, hdrain.1, ?_, hdrain.2.2⟩
    rw [hdrain.2.1, h.open_, Bool.false_or]
  · refine .inl ⟨not_le.mp hcap, ?_⟩
    have hnone : r.buffer.push maxSize chunk = none := by
      cases hpush : r.buffer.push maxSize chunk with
      | none => rfl
      | some pushed =>
          have hle := (push_eq_some hpush h.sound).2.2
          rw [h.bytes_eq] at hle
          exact absurd hle hcap
    rw [hnone]

/-! ## A stream in pieces -/

/-- The bytes of the data events. -/
def bytesOf (events : List (Event ι)) : Bytes := events.flatMap Event.bytes

theorem bytesOf_append (first second : List (Event ι)) :
    bytesOf (first ++ second) = bytesOf first ++ bytesOf second := List.flatMap_append

/-- Data events that are small enough, and together are the frames of the payloads. -/
structure Splits (maxSize : Nat) (payloads : List Bytes) (events : List (Event ι)) : Prop where
  fits : ∀ payload ∈ payloads, socketFraming.Fits maxSize payload
  small : ∀ chunk, .data chunk ∈ events → chunk.length ≤ maxSize
  whole : bytesOf events = socketFraming.encodeAll payloads

/-- The buffer has room for a frame and a chunk: payloads of one byte do not fit under the cap. -/
def Room (maxSize : Nat) (payloads : List Bytes) : Prop :=
  2 ≤ maxSize ∨ ∀ payload ∈ payloads, payload = []

variable {events before after : List (Event ι)} {event : Event ι} {start : σ}

theorem run_append (before after : List (Event ι)) :
    run handle perform maxSize start (before ++ after) =
      after.foldl (handleEvent handle perform maxSize) (run handle perform maxSize start before) :=
  List.foldl_append

/-- What has failed stays failed. -/
theorem failed_handleEvent (h : r.failed = true) (event : Event ι) :
    (handleEvent handle perform maxSize r event).failed = true := by
  cases event with
  | data chunk => rwa [handleEvent, receive, if_pos h]
  | act action => exact h

theorem failed_foldl (h : r.failed = true) (events : List (Event ι)) :
    (events.foldl (handleEvent handle perform maxSize) r).failed = true := by
  induction events generalizing r with
  | nil => exact h
  | cons event events ih => exact ih (failed_handleEvent h event)

theorem failed_mono (hpre : before <+: events)
    (h : (run handle perform maxSize start events).failed = false) :
    (run handle perform maxSize start before).failed = false := by
  obtain ⟨after, rfl⟩ := hpre
  by_contra hfailed
  rw [run_append, failed_foldl ((Bool.not_eq_false _).mp hfailed)] at h
  cases h

namespace Splits

theorem length_le (h : Splits maxSize payloads events) (hpre : before <+: events) :
    (bytesOf before).length ≤ (socketFraming.encodeAll payloads).length := by
  obtain ⟨after, rfl⟩ := hpre
  rw [← h.whole, bytesOf_append, List.length_append]
  omega

theorem take_eq (h : Splits maxSize payloads events) (hpre : before <+: events) :
    (socketFraming.encodeAll payloads).take (bytesOf before).length = bytesOf before := by
  obtain ⟨after, rfl⟩ := hpre
  rw [← h.whole, bytesOf_append, List.take_left]

theorem piece (h : Splits maxSize payloads events) (hpre : before ++ [.data chunk] <+: events) :
    (socketFraming.encodeAll payloads).take (bytesOf before).length ++ chunk <+:
      socketFraming.encodeAll payloads := by
  have hbefore : before <+: events := (List.prefix_append _ _).trans hpre
  rw [h.take_eq hbefore, ← h.whole]
  obtain ⟨after, rfl⟩ := hpre
  rw [bytesOf_append, bytesOf_append]
  refine ⟨bytesOf after, ?_⟩
  simp [bytesOf, Event.bytes]

/-- Chunks without bytes are the frames of no payload. -/
theorem payloads_eq_nil (h : Splits 0 payloads events) : payloads = [] := by
  have hempty : bytesOf events = [] := by
    refine List.flatMap_eq_nil_iff.mpr fun event hevent => ?_
    cases event with
    | data chunk => exact List.length_eq_zero_iff.mp (Nat.le_zero.mp (h.small chunk hevent))
    | act action => rfl
  have hlength := encodeAll_length_ge payloads
  rw [← h.whole, hempty] at hlength
  exact List.length_eq_zero_iff.mp (Nat.le_zero.mp hlength)

/-- Where there is room, a chunk fits behind a cut. -/
theorem length_cut_le (h : Splits maxSize payloads events) (hroom : Room maxSize payloads)
    (hpre : before ++ [.data chunk] <+: events) :
    (socketFraming.cut payloads (bytesOf before).length ++ chunk).length ≤ maxSize * 4 := by
  have hchunk : chunk.length ≤ maxSize := h.small chunk (hpre.subset (by simp))
  have hheader : socketFraming.headerSize = 4 := rfl
  rw [List.length_append]
  rcases hroom with hlarge | hempty
  · have hcut := length_cut_lt (F := socketFraming) (fun p hp => (h.fits p hp).1)
      (bytesOf before).length
    omega
  · have hcut : (socketFraming.cut payloads (bytesOf before).length).length <
        socketFraming.headerSize + 0 :=
      length_cut_lt (fun p hp => by rw [hempty p hp]; exact le_rfl) _
    rcases Nat.eq_zero_or_pos maxSize with rfl | hpos
    · rw [h.payloads_eq_nil, Framing.cut, List.length_nil]
      omega
    · omega

end Splits

/-- The payloads that a chunk completes. -/
abbrev completed (payloads : List Bytes) (before : List (Event ι)) (chunk : Bytes) : List Bytes :=
  socketFraming.between payloads (bytesOf before).length ((bytesOf before).length + chunk.length)

theorem length_bytesOf_data (before : List (Event ι)) (chunk : Bytes) :
    (bytesOf (before ++ [.data chunk])).length = (bytesOf before).length + chunk.length := by
  rw [bytesOf_append, List.length_append]
  simp [bytesOf, Event.bytes]

theorem run_data (before : List (Event ι)) (chunk : Bytes) :
    run handle perform maxSize start (before ++ [.data chunk]) =
      receive handle maxSize (run handle perform maxSize start before) chunk :=
  run_append before [.data chunk]

/-- A data event with room in the buffer whose payloads are handled smoothly. -/
theorem steady_of_smooth (h : Splits maxSize payloads events)
    (hpre : before ++ [.data chunk] <+: events)
    (hcap : (socketFraming.cut payloads (bytesOf before).length ++ chunk).length ≤ maxSize * 4)
    (hsteady : Steady payloads (bytesOf before).length (run handle perform maxSize start before))
    (hsmooth : Smooth handle (run handle perform maxSize start before).state
      (completed payloads before chunk)) :
    Steady payloads (bytesOf (before ++ [.data chunk])).length
        (run handle perform maxSize start (before ++ [.data chunk])) ∧
      (run handle perform maxSize start (before ++ [.data chunk])).state =
        handled handle (run handle perform maxSize start before).state
          (completed payloads before chunk) := by
  have hbefore : before <+: events := (List.prefix_append _ _).trans hpre
  rw [run_data, length_bytesOf_data]
  rcases receive_cases hsteady h.fits (h.length_le hbefore) (h.piece hpre) with
    ⟨hfull, -⟩ | ⟨-, hstate, hfailed, hsound, hbytes⟩
  · exact absurd hcap (not_le.mpr hfull)
  · rw [consume_of_smooth hsmooth] at hstate hfailed hbytes
    exact ⟨⟨hfailed, hsound, hbytes⟩, hstate⟩

section Open

variable (h : Splits maxSize payloads events) (hpre : before ++ [.data chunk] <+: events)
  (hsteady : Steady payloads (bytesOf before).length (run handle perform maxSize start before))
  (hopen : (run handle perform maxSize start (before ++ [.data chunk])).failed = false)

include h hpre hsteady hopen

/-- A data event that does not fail had room. -/
theorem cap_of_open :
    (socketFraming.cut payloads (bytesOf before).length ++ chunk).length ≤ maxSize * 4 := by
  have hbefore : before <+: events := (List.prefix_append _ _).trans hpre
  rw [run_data] at hopen
  rcases receive_cases hsteady h.fits (h.length_le hbefore) (h.piece hpre) with
    ⟨-, hfull⟩ | ⟨hcap, -⟩
  · rw [hopen] at hfull
    cases hfull
  · exact hcap

/-- A data event that does not fail and leaves no complete frame. -/
theorem smooth_of_drained
    (hdrained : ¬ (run handle perform maxSize start (before ++ [.data chunk])).buffer.holdsFrame) :
    Smooth handle (run handle perform maxSize start before).state
      (completed payloads before chunk) := by
  have hbefore : before <+: events := (List.prefix_append _ _).trans hpre
  rw [run_data] at hopen hdrained
  rcases receive_cases hsteady h.fits (h.length_le hbefore) (h.piece hpre) with
    ⟨-, hfull⟩ | ⟨-, -, hfailed, -, hbytes⟩
  · rw [hopen] at hfull
    cases hfull
  · refine smooth_of_consume (Prod.ext ?_ ?_)
    · -- a payload that is left would be a complete frame in the buffer
      by_contra hleft
      obtain ⟨payload, rest, hcons⟩ := List.exists_cons_of_ne_nil hleft
      have hmem : payload ∈ payloads := by
        have hleft := (left_suffix handle (run handle perform maxSize start before).state
          (completed payloads before chunk)).subset
        rw [hcons] at hleft
        exact List.mem_of_mem_take (List.mem_of_mem_drop (hleft List.mem_cons_self))
      rw [hcons, encodeAll_cons, List.append_assoc] at hbytes
      exact hdrained (holdsFrame_of_bytes (h.fits payload hmem) hbytes)
    · exact hfailed.symm.trans hopen

end Open

/-- The chunk in which a point of the stream lies. -/
theorem exists_data {m : Nat} (hpos : 0 < m) (hm : m ≤ (bytesOf events).length) :
    ∃ before chunk, before ++ [.data chunk] <+: events ∧ (bytesOf before).length < m ∧
      m ≤ (bytesOf before).length + chunk.length := by
  induction events using List.reverseRecOn with
  | nil => exact absurd hm (not_le.mpr hpos)
  | append_singleton events event ih =>
      by_cases hearlier : m ≤ (bytesOf events).length
      · obtain ⟨before, chunk, hpre, hbounds⟩ := ih hearlier
        exact ⟨before, chunk, hpre.trans (List.prefix_append _ _), hbounds⟩
      · cases event with
        | data chunk =>
            rw [length_bytesOf_data] at hm
            exact ⟨events, chunk, List.prefix_rfl, not_le.mp hearlier, hm⟩
        | act action =>
            rw [bytesOf_append] at hm
            simp only [bytesOf, List.flatMap_cons, Event.bytes, List.flatMap_nil,
              List.append_nil] at hm
            exact absurd hm hearlier

namespace Splits

/-- The chunk in which a frame ends. -/
theorem exists_end (h : Splits maxSize payloads events) {earlier later : List Bytes}
    {payload : Bytes} (hsplit : payloads = earlier ++ payload :: later) :
    ∃ before chunk, before ++ [.data chunk] <+: events ∧
      (bytesOf before).length < (socketFraming.encodeAll (earlier ++ [payload])).length ∧
      (socketFraming.encodeAll (earlier ++ [payload])).length ≤
        (bytesOf before).length + chunk.length := by
  refine exists_data ?_ ?_
  · have hpos := socketFraming.headerSize_pos
    rw [encodeAll_append, List.length_append, encodeAll_cons, List.length_append, length_encode]
    omega
  · have hwhole : payloads = (earlier ++ [payload]) ++ later :=
      hsplit.trans (List.append_cons _ _ _)
    rw [h.whole, hwhole, encodeAll_append _ later, List.length_append]
    exact Nat.le_add_right _ _

/-- A frame that ends in a chunk is in the buffer with it. -/
theorem length_encode_le (h : Splits maxSize payloads events)
    (hpre : before ++ [.data chunk] <+: events) {earlier later : List Bytes} {payload : Bytes}
    (hsplit : payloads = earlier ++ payload :: later)
    (hn : (bytesOf before).length < (socketFraming.encodeAll (earlier ++ [payload])).length)
    (hm : (socketFraming.encodeAll (earlier ++ [payload])).length ≤
      (bytesOf before).length + chunk.length) :
    (socketFraming.encode payload).length ≤
      (socketFraming.cut payloads (bytesOf before).length ++ chunk).length := by
  have hbefore : before <+: events := (List.prefix_append _ _).trans hpre
  have hpiece := h.piece hpre
  have hlength := h.length_le hbefore
  subst hsplit
  rw [cut_append hpiece hlength, (between_of_ends later hn hm).2, encodeAll_append, encodeAll_cons]
  simp only [List.length_append]
  omega

/-- Where every chunk fits under the cap, there is room. -/
theorem room (h : Splits maxSize payloads events)
    (hcaps : ∀ before chunk, before ++ [.data chunk] <+: events →
      (socketFraming.cut payloads (bytesOf before).length ++ chunk).length ≤ maxSize * 4) :
    Room maxSize payloads := by
  by_contra hroom
  rw [Room, not_or, not_forall] at hroom
  obtain ⟨hsmall, payload, hne⟩ := hroom
  obtain ⟨hmem, hne⟩ := Classical.not_imp.mp hne
  obtain ⟨earlier, later, hsplit⟩ := List.append_of_mem hmem
  obtain ⟨before, chunk, hpre, hn, hm⟩ := h.exists_end hsplit
  -- a frame with a byte has five bytes, and the cap is at most four
  have hle := (h.length_encode_le hpre hsplit hn hm).trans (hcaps before chunk hpre)
  have hheader : socketFraming.headerSize = 4 := rfl
  have hpos := List.length_pos_iff.mpr hne
  rw [length_encode] at hle
  omega

end Splits

end ThinkLocal.Ipc
