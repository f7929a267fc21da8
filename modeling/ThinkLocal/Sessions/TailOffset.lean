import ThinkLocal.Js.Utf8

/-!
# The offset behind the last line

`tickInternal` of `session-watcher.ts` as far as it moves the offset.  The offset counts bytes of the
file, and what is added to it are the bytes of the decoded lines when they are encoded again.
-/

namespace ThinkLocal.Sessions

open Foundation Js

/-- What a run finds: the file, the offset, the size that `stat` gave, and how many of the new bytes the
read returns. -/
structure Snapshot where
  file : Bytes
  tailOffset : Nat
  size : Nat
  count : Nat

namespace Snapshot

/-- The bytes that the read returned. -/
def returned (s : Snapshot) : Bytes :=
  ((s.file.drop s.tailOffset).take (s.size - s.tailOffset)).take s.count

/-- The buffer after the read; it was allocated with zeros. -/
def buffer (s : Snapshot) : Bytes :=
  s.returned ++ List.replicate (s.size - s.tailOffset - s.returned.length) 0

/-- The new offset and the text for the parser, if there is one. -/
def tick (s : Snapshot) : Nat × Option (List Char) :=
  if s.size ≤ s.tailOffset then (s.tailOffset, none)
  else
    let complete := completeLines '\n' (decodeUtf8 s.buffer)
    if complete = [] then (s.tailOffset, none)
    else (s.tailOffset + byteLength complete, some complete)

end Snapshot

/-- The offset is at the beginning of a line of the file. -/
def AtLineStart (file : Bytes) (offset : Nat) : Prop :=
  offset ≤ file.length ∧ completeLines 10 (file.take offset) = file.take offset

instance (file : Bytes) (offset : Nat) : Decidable (AtLineStart file offset) :=
  inferInstanceAs (Decidable (_ ∧ _))

/-- The offset ends directly behind the last newline that was read, and the text is that of the bytes
between the offsets. -/
structure TailExact (s : Snapshot) : Prop where
  offset : s.tick.1 = s.tailOffset + (completeLines 10 s.returned).length
  atLine : AtLineStart s.file s.tick.1
  text : ∀ text ∈ s.tick.2,
    text = decodeUtf8 ((s.file.drop s.tailOffset).take (s.tick.1 - s.tailOffset))

/-- The ill-formed parts of the complete lines have three bytes each, taken together. -/
def EvenlyReplaced (s : Snapshot) : Prop :=
  (illFormed (completeLines 10 s.returned)).sum =
    3 * (illFormed (completeLines 10 s.returned)).length

instance (s : Snapshot) : Decidable (EvenlyReplaced s) := Nat.decEq _ _

variable {s : Snapshot}

theorem completeLines_append_of_notMem {α : Type*} [DecidableEq α] {c : α} {l l' : List α}
    (h : c ∉ l') : completeLines c (l ++ l') = completeLines c l := by
  rcases notMem_or_split c l with hnot | ⟨lines, rest, rfl, hrest⟩
  · rw [completeLines_of_notMem hnot, completeLines_of_notMem]
    exact List.not_mem_append hnot h
  · rw [List.append_assoc, List.cons_append, completeLines_append hrest,
      completeLines_append (List.not_mem_append hrest h)]

/-- What was not read is no newline. -/
theorem complete_buffer :
    completeLines '\n' (decodeUtf8 s.buffer) = decodeUtf8 (completeLines 10 s.returned) := by
  rw [completeLines_decodeUtf8, Snapshot.buffer, completeLines_append_of_notMem]
  intro h
  exact absurd (List.eq_of_mem_replicate h) (by decide)

theorem returned_prefix : s.returned <+: s.file.drop s.tailOffset :=
  (List.take_prefix _ _).trans (List.take_prefix _ _)

/-- The complete lines are what the file has behind the offset. -/
theorem take_completeLines :
    (s.file.drop s.tailOffset).take (completeLines 10 s.returned).length =
      completeLines 10 s.returned := by
  have hlines : completeLines 10 s.returned <+: s.file.drop s.tailOffset :=
    completeLines_prefix.trans returned_prefix
  exact (List.prefix_iff_eq_take.mp hlines).symm

/-- Behind complete lines that were read there is the beginning of a line. -/
theorem atLineStart_behind (h : AtLineStart s.file s.tailOffset) :
    AtLineStart s.file (s.tailOffset + (completeLines 10 s.returned).length) := by
  constructor
  · have hlines : completeLines 10 s.returned <+: s.file.drop s.tailOffset :=
      completeLines_prefix.trans returned_prefix
    have hle := hlines.length_le
    rw [List.length_drop] at hle
    have hstart := h.1
    omega
  · have htake : s.file.take (s.tailOffset + (completeLines 10 s.returned).length) =
        s.file.take s.tailOffset ++ completeLines 10 s.returned := by
      rw [List.take_add, take_completeLines]
    rw [htake, completeLines_append_of_completeLines h.2, completeLines_completeLines]

/-- Complete lines have a text exactly if there are some. -/
theorem decodeUtf8_completeLines_eq_nil {bytes : Bytes} :
    decodeUtf8 (completeLines 10 bytes) = [] ↔ completeLines 10 bytes = [] := by
  constructor
  · intro h
    rcases eq_nil_or_concat_of_completeLines
      (completeLines_completeLines (c := (10 : UInt8)) (l := bytes)) with hnil | ⟨before, hbefore⟩
    · exact hnil
    · rw [hbefore, decodeUtf8_append] at h
      exact absurd h (by simp)
  · intro h
    rw [h]
    rfl

/-- The tick in terms of the bytes. -/
theorem tick_eq : s.tick =
    if completeLines 10 s.returned = [] then (s.tailOffset, none)
    else (s.tailOffset + byteLength (decodeUtf8 (completeLines 10 s.returned)),
      some (decodeUtf8 (completeLines 10 s.returned))) := by
  rw [Snapshot.tick, complete_buffer]
  dsimp only
  simp only [decodeUtf8_completeLines_eq_nil]
  by_cases hsize : s.size ≤ s.tailOffset
  · have hreturned : s.returned = [] := by
      rw [Snapshot.returned, Nat.sub_eq_zero_of_le hsize, List.take_zero, List.take_nil]
    rw [if_pos hsize, hreturned]
    rfl
  · rw [if_neg hsize]

/-- From the beginning of a line, a tick is exact exactly if the ill-formed parts of the lines have three
bytes each, taken together. -/
theorem tailExact_iff_evenlyReplaced (h : AtLineStart s.file s.tailOffset) : TailExact s ↔ EvenlyReplaced s := by
  have hlength := byteLength_decodeUtf8_iff (completeLines 10 s.returned)
  rw [EvenlyReplaced, ← hlength]
  by_cases hlines : completeLines 10 s.returned = []
  · -- nothing is read: the offset stays
    have htick : s.tick = (s.tailOffset, none) := by rw [tick_eq, if_pos hlines]
    refine iff_of_true ⟨?_, ?_, ?_⟩ (by rw [hlines]; rfl)
    · rw [htick, hlines]
      rfl
    · rw [htick]
      exact h
    · rw [htick]
      exact fun _ htext => nomatch htext
  · have htick : s.tick = (s.tailOffset + byteLength (decodeUtf8 (completeLines 10 s.returned)),
        some (decodeUtf8 (completeLines 10 s.returned))) := by rw [tick_eq, if_neg hlines]
    constructor
    · intro hexact
      have hoffset := hexact.offset
      rw [htick] at hoffset
      exact Nat.add_left_cancel hoffset
    · intro hsame
      rw [hsame] at htick
      refine ⟨by rw [htick], ?_, ?_⟩
      · rw [htick]
        exact atLineStart_behind h
      · intro text htext
        rw [htick] at htext ⊢
        obtain rfl := Option.some.inj htext
        dsimp only
        rw [Nat.add_sub_cancel_left, take_completeLines]

/-! ## Runs -/

/-- What happens before a tick: the file grows, `stat` gives a size and the read returns some bytes. -/
structure Growth where
  bytes : Bytes
  size : Nat
  count : Nat

/-- The tick after a growth. -/
def Growth.snapshot (g : Growth) (file : Bytes) (offset : Nat) : Snapshot :=
  ⟨file ++ g.bytes, offset, g.size, g.count⟩

/-- The file, the offset and the texts of all ticks after growths. -/
def runTicks (file : Bytes) (offset : Nat) : List Growth → Bytes × Nat × List Char
  | [] => (file, offset, [])
  | g :: growths =>
      let (offset', text) := (g.snapshot file offset).tick
      let (file', last, texts) := runTicks (file ++ g.bytes) offset' growths
      (file', last, text.getD [] ++ texts)

/-- Every tick of a run replaces evenly. -/
def AllEvenlyReplaced (file : Bytes) (offset : Nat) : List Growth → Prop
  | [] => True
  | g :: growths => EvenlyReplaced (g.snapshot file offset) ∧
      AllEvenlyReplaced (file ++ g.bytes) (g.snapshot file offset).tick.1 growths

theorem AtLineStart.grow {file bytes : Bytes} {offset : Nat} (h : AtLineStart file offset) :
    AtLineStart (file ++ bytes) offset := by
  refine ⟨h.1.trans (by rw [List.length_append]; omega), ?_⟩
  rw [List.take_append_of_le_length h.1]
  exact h.2

/-- The text of a tick is that of the bytes up to the new offset. -/
theorem TailExact.text_eq (h : TailExact s) (hstart : AtLineStart s.file s.tailOffset) :
    decodeUtf8 (s.file.take s.tailOffset) ++ s.tick.2.getD [] =
      decodeUtf8 (s.file.take s.tick.1) := by
  have htext : s.tick.2.getD [] = decodeUtf8 (completeLines 10 s.returned) := by
    rw [tick_eq]
    split
    · next hlines =>
        rw [hlines]
        rfl
    · rfl
  rw [htext, h.offset, List.take_add, take_completeLines, decodeUtf8_of_completeLines hstart.2]

/-- The ticks of a run pass on the text up to the last offset, which is at the beginning of a line. -/
theorem runTicks_exact (growths : List Growth) {file : Bytes} {offset : Nat}
    (h : AtLineStart file offset) (heven : AllEvenlyReplaced file offset growths) :
    AtLineStart (runTicks file offset growths).1 (runTicks file offset growths).2.1 ∧
      decodeUtf8 (file.take offset) ++ (runTicks file offset growths).2.2 =
        decodeUtf8 ((runTicks file offset growths).1.take (runTicks file offset growths).2.1) := by
  induction growths generalizing file offset with
  | nil => exact ⟨h, List.append_nil _⟩
  | cons g growths ih =>
      have hgrown : AtLineStart (g.snapshot file offset).file (g.snapshot file offset).tailOffset :=
        h.grow
      have hexact := (tailExact_iff_evenlyReplaced hgrown).mpr heven.1
      obtain ⟨hlast, htexts⟩ := ih hexact.atLine heven.2
      refine ⟨hlast, ?_⟩
      have htake : file.take offset = (file ++ g.bytes).take offset :=
        (List.take_append_of_le_length h.1).symm
      calc decodeUtf8 (file.take offset) ++ (runTicks file offset (g :: growths)).2.2
          = (decodeUtf8 ((file ++ g.bytes).take offset) ++
              (g.snapshot file offset).tick.2.getD []) ++
              (runTicks (file ++ g.bytes) (g.snapshot file offset).tick.1 growths).2.2 := by
            rw [htake, List.append_assoc]
            rfl
        _ = decodeUtf8 ((file ++ g.bytes).take (g.snapshot file offset).tick.1) ++
              (runTicks (file ++ g.bytes) (g.snapshot file offset).tick.1 growths).2.2 :=
            congrArg (· ++ _) (hexact.text_eq hgrown)
        _ = _ := htexts

theorem atLineStart_zero (file : Bytes) : AtLineStart file 0 := ⟨Nat.zero_le _, rfl⟩

/-- A tick from the beginning of a line is exact exactly if the ill-formed parts of the lines that it
reads have three bytes each, taken together; if so in all ticks, their texts are that of the file. -/
theorem tailOffset_exact_iff (s : Snapshot) (growths : List Growth) :
    (AtLineStart s.file s.tailOffset → (TailExact s ↔ EvenlyReplaced s)) ∧
    (AllEvenlyReplaced [] 0 growths →
      AtLineStart (runTicks [] 0 growths).1 (runTicks [] 0 growths).2.1 ∧
        (runTicks [] 0 growths).2.2 =
          decodeUtf8 ((runTicks [] 0 growths).1.take (runTicks [] 0 growths).2.1)) :=
  ⟨tailExact_iff_evenlyReplaced, runTicks_exact growths (atLineStart_zero [])⟩

/-- A line is read, and the part of the next one stays. -/
theorem tailOffset_exact_line :
    TailExact ⟨[0x61, 0x0A, 0xC3], 0, 3, 3⟩ ∧
      AtLineStart (runTicks [] 0 [⟨[0x61, 0x0A, 0xC3], 3, 3⟩, ⟨[0xA4, 0x0A], 5, 2⟩]).1
        (runTicks [] 0 [⟨[0x61, 0x0A, 0xC3], 3, 3⟩, ⟨[0xA4, 0x0A], 5, 2⟩]).2.1 :=
  ⟨((tailOffset_exact_iff ⟨[0x61, 0x0A, 0xC3], 0, 3, 3⟩ []).1 (by decide)).mpr (by decide),
    ((tailOffset_exact_iff ⟨[], 0, 0, 0⟩ [⟨[0x61, 0x0A, 0xC3], 3, 3⟩, ⟨[0xA4, 0x0A], 5, 2⟩]).2
      ⟨by decide +kernel, by decide +kernel, trivial⟩).1⟩

/-- Behind a stray byte the offset is two bytes too far. -/
theorem stray_byte_shifts_offset :
    AtLineStart [0xFF, 0x0A] 0 ∧ ¬ TailExact ⟨[0xFF, 0x0A], 0, 2, 2⟩ :=
  ⟨by decide, fun h => absurd h.offset (by decide)⟩

end ThinkLocal.Sessions
