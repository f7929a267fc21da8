import ThinkLocal.Ipc.SocketFraming

/-!
# Messages over the Unix socket

What server and client make of a stream of frames.  A frame that throws ends the loop of the server
for its data event: a frame that is complete behind it stays in the buffer until more data comes.
-/

namespace ThinkLocal.Ipc

open Foundation Js Framing FrameBuffer

variable {onMessage : List Json → Json → HandlerOutcome} {calls : List Json} {maxSize n m : Nat}
  {payload : Bytes} {payloads chunks : List Bytes}

/-! ## Frames of the server -/

/-- The frame throws: it is no JSON, it is `null`, or `onMessage` throws. -/
def Throws (onMessage : List Json → Json → HandlerOutcome) (calls : List Json) (payload : Bytes) :
    Prop :=
  parsePayload payload = none ∨ parsePayload payload = some .null ∨
    ∃ msg, message payload = some msg ∧ onMessage calls msg ≠ .returned

/-- `onMessage` throws a `FrameProtocolError`. -/
def Closes (onMessage : List Json → Json → HandlerOutcome) (calls : List Json) (payload : Bytes) :
    Prop :=
  ∃ msg, message payload = some msg ∧ onMessage calls msg = .protocolError

/-- The three ways of a frame. -/
theorem serverFrame_cases (onMessage : List Json → Json → HandlerOutcome) (calls : List Json)
    (payload : Bytes) :
    (∃ msg, message payload = some msg ∧
        serverFrame onMessage calls payload = (calls ++ [msg], (onMessage calls msg).verdict)) ∨
      (message payload = none ∧ (parsePayload payload = none ∨ parsePayload payload = some .null) ∧
        serverFrame onMessage calls payload = (calls, .stop)) ∨
      (message payload = none ∧ parsePayload payload ≠ none ∧ parsePayload payload ≠ some .null ∧
        serverFrame onMessage calls payload = (calls, .next)) := by
  unfold message serverFrame
  cases hparse : parsePayload payload with
  | none => exact .inr (.inl ⟨rfl, .inl rfl, rfl⟩)
  | some msg =>
      by_cases hfields : hasRequiredFields msg = true
      · left
        refine ⟨msg, by simp [hfields], ?_⟩
        cases msg with
        | null => cases hfields
        | _ => simp [hfields]
      · cases msg with
        | null => exact .inr (.inl ⟨rfl, .inr rfl, rfl⟩)
        | _ => exact .inr (.inr (by simp [hfields]))

theorem verdict_eq_next : (serverFrame onMessage calls payload).2 = .next ↔
    ¬ Throws onMessage calls payload := by
  rcases serverFrame_cases onMessage calls payload with
    ⟨msg, hmsg, hframe⟩ | ⟨hnone, hparse, hframe⟩ | ⟨hnone, hparsed, hnull, hframe⟩
  · have hparsed : parsePayload payload = some msg ∧ hasRequiredFields msg = true := by
      simpa [message, Option.filter_eq_some_iff] using hmsg
    have hne : msg ≠ .null := by
      rintro rfl
      cases hparsed.2
    rw [hframe]
    cases houtcome : onMessage calls msg <;>
      simp [Throws, hmsg, hparsed.1, hne, houtcome, HandlerOutcome.verdict]
  · rw [hframe]
    rcases hparse with hparse | hparse <;> simp [Throws, hparse]
  · rw [hframe]
    simp [Throws, hnone, hparsed, hnull]

theorem verdict_eq_fail : (serverFrame onMessage calls payload).2 = .fail ↔
    Closes onMessage calls payload := by
  rcases serverFrame_cases onMessage calls payload with
    ⟨msg, hmsg, hframe⟩ | ⟨hnone, -, hframe⟩ | ⟨hnone, -, -, hframe⟩
  · rw [hframe]
    cases houtcome : onMessage calls msg <;> simp [Closes, hmsg, houtcome, HandlerOutcome.verdict]
  · rw [hframe]
    simp [Closes, hnone]
  · rw [hframe]
    simp [Closes, hnone]

/-- `onMessage` is called with the messages. -/
theorem handled_serverFrame (calls : List Json) (payloads : List Bytes) :
    handled (serverFrame onMessage) calls payloads = calls ++ payloads.filterMap message := by
  induction payloads generalizing calls with
  | nil => exact (List.append_nil _).symm
  | cons payload payloads ih =>
      rw [handled, List.foldl_cons]
      rcases serverFrame_cases onMessage calls payload with
        ⟨msg, hmsg, hframe⟩ | ⟨hnone, -, hframe⟩ | ⟨hnone, -, -, hframe⟩
      · have ih' := ih (calls ++ [msg])
        rw [hframe, List.filterMap_cons_some hmsg]
        exact ih'.trans (List.append_cons _ _ _).symm
      · rw [hframe, List.filterMap_cons_none hnone]
        exact ih calls
      · rw [hframe, List.filterMap_cons_none hnone]
        exact ih calls

/-- The number of bytes of the frames of payloads. -/
abbrev size (payloads : List Bytes) : Nat := (socketFraming.encodeAll payloads).length

theorem size_mono {first second : List Bytes} (h : first <+: second) :
    size first ≤ size second := by
  obtain ⟨rest, rfl⟩ := h
  rw [size, size, encodeAll_append, List.length_append]
  exact Nat.le_add_right _ _

/-- The frames that become complete between two points are handled smoothly exactly if no handler
closes the connection there, and none that throws has a complete one behind it. -/
theorem smooth_serverFrame (hnm : n ≤ m) :
    Smooth (serverFrame onMessage) ((payloads.take (socketFraming.complete payloads n)).filterMap
        message) (socketFraming.between payloads n m) ↔
      ∀ before payload after, payloads = before ++ payload :: after →
        n < size (before ++ [payload]) → size (before ++ [payload]) ≤ m →
          ¬ Closes onMessage (before.filterMap message) payload ∧
            ∀ next rest, after = next :: rest → size (before ++ [payload, next]) ≤ m →
              ¬ Throws onMessage (before.filterMap message) payload := by
  rw [smooth_iff]
  constructor
  · rintro hsmooth before payload after rfl hn hm
    obtain ⟨hbefore, hbetween⟩ := between_of_ends after hn hm
    obtain ⟨hfail, hgo⟩ := hsmooth _ _ _ hbetween
    have hcalls : handled (serverFrame onMessage)
        (((before ++ payload :: after).take
          (socketFraming.complete (before ++ payload :: after) n)).filterMap message)
        (before.drop (socketFraming.complete (before ++ payload :: after) n)) =
          before.filterMap message := by
      rw [handled_serverFrame, ← List.filterMap_append, List.take_append_of_le_length hbefore,
        List.take_append_drop]
    rw [hcalls] at hfail hgo
    refine ⟨fun hcloses => hfail (verdict_eq_fail.mpr hcloses), ?_⟩
    rintro next rest rfl hnext
    refine verdict_eq_next.mp (hgo ?_)
    -- the next frame is complete as well
    have hk : before.length + 2 ≤ (before ++ payload :: next :: rest).length := by
      simp
    have htake : (before ++ payload :: next :: rest).take (before.length + 2) =
        before ++ [payload, next] := by
      rw [List.take_append, List.take_of_length_le (Nat.le_add_right _ _), Nat.add_sub_cancel_left]
      rfl
    have hcomplete : before.length + 2 ≤
        socketFraming.complete (before ++ payload :: next :: rest) m :=
      (le_complete_iff hk).mpr (by rwa [htake])
    obtain ⟨k, hk⟩ := Nat.exists_eq_add_of_le hcomplete
    rw [hk, show before.length + 2 + k - (before.length + 1) = k + 1 by omega]
    exact List.cons_ne_nil _ _
  · intro hall before payload after hbetween
    obtain ⟨hsplit, hn, hm⟩ := ends_of_between hnm hbetween
    have hfirst : size (payloads.take (socketFraming.complete payloads n) ++ before ++ [payload]) ≤
        m := (size_mono ⟨after, by simp⟩).trans hm
    obtain ⟨hcloses, hthrows⟩ := hall _ _ _ hsplit hn hfirst
    rw [handled_serverFrame, ← List.filterMap_append]
    refine ⟨fun hfail => hcloses (verdict_eq_fail.mp hfail), fun hne => ?_⟩
    obtain ⟨next, rest, rfl⟩ := List.exists_cons_of_ne_nil hne
    refine verdict_eq_next.mpr (hthrows next _ rfl ?_)
    exact (size_mono ⟨rest, by simp⟩).trans hm

/-! ## The server -/

/-- The server calls `onMessage` with all messages, and after each data event no frame is left. -/
structure Served (onMessage : List Json → Json → HandlerOutcome) (maxSize : Nat)
    (payloads chunks : List Bytes) : Prop where
  calls : (serve onMessage maxSize chunks).state = payloads.filterMap message
  stays_open : (serve onMessage maxSize chunks).failed = false
  drained : ∀ before, before <+: chunks → ¬ (serve onMessage maxSize before).buffer.holdsFrame

/-- There is room in the buffer, no handler closes the connection, and no chunk completes a frame
that throws together with the next one. -/
structure Apart (onMessage : List Json → Json → HandlerOutcome) (maxSize : Nat)
    (payloads chunks : List Bytes) : Prop where
  room : Room maxSize payloads
  quiet : ∀ before payload after, payloads = before ++ payload :: after →
    ¬ Closes onMessage (before.filterMap message) payload
  apart : ∀ earlier chunk, earlier ++ [chunk] <+: chunks →
    ∀ before payload next after, payloads = before ++ payload :: next :: after →
      Throws onMessage (before.filterMap message) payload →
        ¬ (earlier.flatten.length < size (before ++ [payload]) ∧
          size (before ++ [payload, next]) ≤ (earlier ++ [chunk]).flatten.length)

/-- The data events of a server. -/
abbrev dataEvents (chunks : List Bytes) : List (Event Empty) := chunks.map .data

theorem bytesOf_dataEvents (chunks : List Bytes) : bytesOf (dataEvents chunks) = chunks.flatten := by
  rw [bytesOf, dataEvents, List.flatMap_map]
  exact List.flatMap_id'

theorem dataEvents_snoc (chunks : List Bytes) (chunk : Bytes) :
    dataEvents (chunks ++ [chunk]) = dataEvents chunks ++ [.data chunk] := List.map_append

theorem serve_snoc (earlier : List Bytes) (chunk : Bytes) :
    serve onMessage maxSize (earlier ++ [chunk]) =
      run (serverFrame onMessage) (fun action _ => Empty.elim action) maxSize []
        (dataEvents earlier ++ [.data chunk]) := by
  rw [← dataEvents_snoc]
  rfl

/-- After some chunks the server has called `onMessage` with the complete messages. -/
structure Upto (onMessage : List Json → Json → HandlerOutcome) (maxSize : Nat)
    (payloads earlier : List Bytes) : Prop where
  steady : Steady payloads (bytesOf (dataEvents earlier)).length (serve onMessage maxSize earlier)
  calls : (serve onMessage maxSize earlier).state =
    (payloads.take (socketFraming.complete payloads (bytesOf (dataEvents earlier)).length)).filterMap
      message

variable {earlier : List Bytes} {chunk : Bytes}

theorem upto_nil : Upto onMessage maxSize payloads [] := by
  refine ⟨⟨rfl, sound_empty, (cut_zero _).symm⟩, ?_⟩
  rw [show (bytesOf (dataEvents [])).length = 0 from rfl, complete_zero]
  rfl

/-- The frames that a chunk completes are handled smoothly. -/
def SmoothAt (onMessage : List Json → Json → HandlerOutcome) (payloads earlier : List Bytes)
    (chunk : Bytes) : Prop :=
  Smooth (serverFrame onMessage)
    ((payloads.take (socketFraming.complete payloads (bytesOf (dataEvents earlier)).length)).filterMap
      message)
    (completed payloads (dataEvents earlier) chunk)

theorem prefix_dataEvents_snoc (h : earlier ++ [chunk] <+: chunks) :
    dataEvents earlier ++ [.data chunk] <+: dataEvents chunks := by
  rw [← dataEvents_snoc]
  exact h.map _

/-- There is room in the buffer for a chunk. -/
def RoomAt (maxSize : Nat) (payloads earlier : List Bytes) (chunk : Bytes) : Prop :=
  (socketFraming.cut payloads (bytesOf (dataEvents earlier)).length ++ chunk).length ≤ maxSize * 4

theorem Upto.snoc (h : Upto onMessage maxSize payloads earlier)
    (hsplits : Splits maxSize payloads (dataEvents chunks)) (hpre : earlier ++ [chunk] <+: chunks)
    (hroom : RoomAt maxSize payloads earlier chunk)
    (hsmooth : SmoothAt onMessage payloads earlier chunk) :
    Upto onMessage maxSize payloads (earlier ++ [chunk]) := by
  rw [SmoothAt, ← h.calls] at hsmooth
  obtain ⟨hsteady, hstate⟩ :=
    steady_of_smooth hsplits (prefix_dataEvents_snoc hpre) hroom h.steady hsmooth
  rw [← dataEvents_snoc] at hsteady hstate
  refine ⟨hsteady, hstate.trans ?_⟩
  rw [dataEvents_snoc, length_bytesOf_data]
  have hcalls := h.calls
  rw [serve] at hcalls
  rw [hcalls, handled_serverFrame, ← List.filterMap_append, take_append_between (Nat.le_add_right _ _)]

/-- Where the chunks are apart, each is handled smoothly. -/
theorem Apart.smoothAt (h : Apart onMessage maxSize payloads chunks)
    (hpre : earlier ++ [chunk] <+: chunks) : SmoothAt onMessage payloads earlier chunk := by
  refine (smooth_serverFrame (Nat.le_add_right _ _)).mpr fun before payload after hsplit hn hm => ?_
  refine ⟨h.quiet before payload after hsplit, ?_⟩
  rintro next rest rfl hnext hthrows
  refine h.apart earlier chunk hpre before payload next rest hsplit hthrows ?_
  rw [← length_bytesOf_data, ← dataEvents_snoc, bytesOf_dataEvents] at hnext
  rw [bytesOf_dataEvents] at hn
  exact ⟨hn, hnext⟩

theorem Apart.upto (h : Apart onMessage maxSize payloads chunks)
    (hsplits : Splits maxSize payloads (dataEvents chunks)) (hpre : earlier <+: chunks) :
    Upto onMessage maxSize payloads earlier := by
  induction earlier using List.reverseRecOn with
  | nil => exact upto_nil
  | append_singleton earlier chunk ih =>
      exact (ih ((List.prefix_append _ _).trans hpre)).snoc hsplits hpre
        (hsplits.length_cut_le h.room (prefix_dataEvents_snoc hpre)) (h.smoothAt hpre)

theorem Apart.served (h : Apart onMessage maxSize payloads chunks)
    (hsplits : Splits maxSize payloads (dataEvents chunks)) :
    Served onMessage maxSize payloads chunks := by
  have hall := h.upto hsplits List.prefix_rfl
  refine ⟨?_, hall.steady.open_, fun before hpre => ?_⟩
  · rw [hall.calls, hsplits.whole, complete_length, List.take_length]
  · have hsteady := (h.upto hsplits hpre).steady
    have hcut := next_cut hsplits.fits (bytesOf (dataEvents before)).length
    rw [← hsteady.bytes_eq] at hcut
    exact not_holdsFrame hcut

/-- A server that leaves no frame had room for a chunk, and has handled it smoothly. -/
theorem Served.smoothAt (h : Served onMessage maxSize payloads chunks)
    (hsplits : Splits maxSize payloads (dataEvents chunks)) (hpre : earlier ++ [chunk] <+: chunks)
    (hupto : Upto onMessage maxSize payloads earlier) :
    RoomAt maxSize payloads earlier chunk ∧ SmoothAt onMessage payloads earlier chunk := by
  have hopen : (serve onMessage maxSize (earlier ++ [chunk])).failed = false :=
    failed_mono (hpre.map Event.data) h.stays_open
  have hdrained := h.drained _ hpre
  rw [serve_snoc] at hopen hdrained
  have hevents := prefix_dataEvents_snoc hpre
  refine ⟨cap_of_open hsplits hevents hupto.steady hopen, ?_⟩
  rw [SmoothAt, ← hupto.calls]
  exact smooth_of_drained hsplits hevents hupto.steady hopen hdrained

theorem Served.upto (h : Served onMessage maxSize payloads chunks)
    (hsplits : Splits maxSize payloads (dataEvents chunks)) (hpre : earlier <+: chunks) :
    Upto onMessage maxSize payloads earlier := by
  induction earlier using List.reverseRecOn with
  | nil => exact upto_nil
  | append_singleton earlier chunk ih =>
      have hupto := ih ((List.prefix_append _ _).trans hpre)
      obtain ⟨hroom, hsmooth⟩ := h.smoothAt hsplits hpre hupto
      exact hupto.snoc hsplits hpre hroom hsmooth

theorem exists_earlier {before : List (Event Empty)}
    (h : before ++ [.data chunk] <+: dataEvents chunks) :
    ∃ earlier, before = dataEvents earlier ∧ earlier ++ [chunk] <+: chunks := by
  obtain ⟨upto, hpre, hmap⟩ := List.prefix_map_iff.mp h
  obtain ⟨earlier, last, rfl, rfl, hlast⟩ := List.map_eq_append_iff.mp hmap.symm
  obtain ⟨chunk', rfl, hchunk⟩ := List.map_eq_singleton_iff.mp hlast
  obtain rfl := Event.data.inj hchunk
  exact ⟨earlier, rfl, hpre⟩

theorem Served.apart (h : Served onMessage maxSize payloads chunks)
    (hsplits : Splits maxSize payloads (dataEvents chunks)) :
    Apart onMessage maxSize payloads chunks := by
  have hat : ∀ {earlier chunk}, earlier ++ [chunk] <+: chunks →
      RoomAt maxSize payloads earlier chunk ∧ SmoothAt onMessage payloads earlier chunk :=
    fun hpre => h.smoothAt hsplits hpre (h.upto hsplits ((List.prefix_append _ _).trans hpre))
  refine ⟨hsplits.room fun before chunk hpre => ?_, ?_, ?_⟩
  · obtain ⟨earlier, rfl, hearlier⟩ := exists_earlier hpre
    exact (hat hearlier).1
  · intro before payload after hsplit
    obtain ⟨events, chunk, hpre, hn, hm⟩ := hsplits.exists_end hsplit
    obtain ⟨earlier, rfl, hearlier⟩ := exists_earlier hpre
    have hsmooth := (smooth_serverFrame (Nat.le_add_right _ _)).mp (hat hearlier).2
    exact (hsmooth before payload after hsplit hn hm).1
  · rintro earlier chunk hpre before payload next after hsplit hthrows ⟨hn, hnext⟩
    rw [← bytesOf_dataEvents] at hn hnext
    rw [dataEvents_snoc, length_bytesOf_data] at hnext
    have hsmooth := (smooth_serverFrame (Nat.le_add_right _ _)).mp (hat hpre).2
    have hm : size (before ++ [payload]) ≤ size (before ++ [payload, next]) :=
      size_mono ⟨[next], by simp⟩
    exact (hsmooth before payload (next :: after) hsplit hn (hm.trans hnext)).2 next after rfl hnext
      hthrows

/-! ## The client -/

variable {events before : List (Event RequestAction)} {id : String} {number : Nat}

/-- The client gets no error, and answers a waiting request with the first message for it. -/
structure Resolved (maxSize : Nat) (payloads : List Bytes) (events : List (Event RequestAction)) :
    Prop where
  stays_open : (connect maxSize events).failed = false
  answered : ∀ before chunk, before ++ [.data chunk] <+: events → ∀ id number,
    (connect maxSize before).state.pending.get id = some number → ∀ msg,
      ((completed payloads before chunk).filterMap parsePayload).find?
          (fun msg => correlationId msg = some id) = some msg →
        (number, msg) ∈ (connect maxSize (before ++ [.data chunk])).state.answers ∧
          (connect maxSize (before ++ [.data chunk])).state.pending.get id = none
  waits : ∀ before chunk, before ++ [.data chunk] <+: events → ∀ id number,
    (connect maxSize before).state.pending.get id = some number →
      ((completed payloads before chunk).filterMap parsePayload).find?
          (fun msg => correlationId msg = some id) = none →
        (connect maxSize (before ++ [.data chunk])).state.pending.get id = some number

theorem handled_clientFrame (r : Requests) (payloads : List Bytes) :
    handled clientFrame r payloads = (payloads.filterMap parsePayload).foldl settle r := by
  induction payloads generalizing r with
  | nil => rfl
  | cons payload payloads ih =>
      rw [handled, List.foldl_cons, clientFrame]
      cases hparse : parsePayload payload with
      | none =>
          rw [List.filterMap_cons_none hparse]
          exact ih r
      | some msg =>
          rw [List.filterMap_cons_some hparse]
          exact ih (settle r msg)

theorem smooth_clientFrame (r : Requests) (payloads : List Bytes) : Smooth clientFrame r payloads := by
  have hnext : ∀ (r : Requests) payload, (clientFrame r payload).2 = .next := by
    intro r payload
    unfold clientFrame
    split <;> rfl
  refine smooth_iff.mpr fun before payload after _ => ⟨?_, fun _ => hnext _ _⟩
  rw [hnext]
  decide

variable {r : Requests} {msg : Json} {msgs : List Json}

theorem settle_of_pending (hid : correlationId msg = some id)
    (hpending : r.pending.get id = some number) :
    settle r msg = ⟨r.pending.delete id, r.answers ++ [(number, msg)]⟩ := by
  rw [settle, hid]
  dsimp only
  rw [hpending]

theorem settle_of_absent (hid : correlationId msg = some id) (habsent : r.pending.get id = none) :
    settle r msg = r := by
  rw [settle, hid]
  dsimp only
  rw [habsent]

/-- A message settles the request that waits under its id. -/
theorem pending_settle (r : Requests) (msg : Json) (id : String) :
    (settle r msg).pending.get id =
      if correlationId msg = some id then none else r.pending.get id := by
  cases hid : correlationId msg with
  | none =>
      rw [settle, hid, if_neg (Option.some_ne_none id).symm]
  | some other =>
      cases hget : r.pending.get other with
      | none =>
          rw [settle_of_absent hid hget]
          split_ifs with heq
          · rw [← Option.some.inj heq, hget]
          · rfl
      | some number =>
          rw [settle_of_pending hid hget, InsertionMap.get_delete]
          by_cases heq : id = other
          · rw [if_pos heq, if_pos (congrArg some heq.symm)]
          · rw [if_neg heq, if_neg fun h => heq (Option.some.inj h).symm]

theorem mem_answers_settle {answer : Nat × Json} (h : answer ∈ r.answers) (msg : Json) :
    answer ∈ (settle r msg).answers := by
  unfold settle
  split
  · exact h
  · split
    · exact h
    · exact List.mem_append_left _ h

theorem mem_answers_foldl {answer : Nat × Json} (h : answer ∈ r.answers) (msgs : List Json) :
    answer ∈ (msgs.foldl settle r).answers := by
  induction msgs generalizing r with
  | nil => exact h
  | cons msg msgs ih => exact ih (mem_answers_settle h msg)

theorem pending_foldl_of_none (h : r.pending.get id = none) (msgs : List Json) :
    (msgs.foldl settle r).pending.get id = none := by
  induction msgs generalizing r with
  | nil => exact h
  | cons msg msgs ih =>
      refine ih ?_
      rw [pending_settle, h, ite_self]

/-- A waiting request gets the first message for it. -/
theorem answered_foldl (hpending : r.pending.get id = some number)
    (hfind : msgs.find? (fun msg => correlationId msg = some id) = some msg) :
    (number, msg) ∈ (msgs.foldl settle r).answers ∧ (msgs.foldl settle r).pending.get id = none := by
  induction msgs generalizing r with
  | nil => cases hfind
  | cons m msgs ih =>
      rw [List.foldl_cons]
      by_cases hid : correlationId m = some id
      · rw [List.find?_cons_of_pos (by simpa using hid)] at hfind
        obtain rfl := Option.some.inj hfind
        rw [settle_of_pending hid hpending]
        exact ⟨mem_answers_foldl (List.mem_append_right _ (List.mem_singleton_self _)) msgs,
          pending_foldl_of_none (InsertionMap.get_delete_self _ _) msgs⟩
      · rw [List.find?_cons_of_neg (by simpa using hid)] at hfind
        exact ih (by rw [pending_settle, if_neg hid, hpending]) hfind

theorem waits_foldl (hfind : msgs.find? (fun msg => correlationId msg = some id) = none) :
    (msgs.foldl settle r).pending.get id = r.pending.get id := by
  induction msgs generalizing r with
  | nil => rfl
  | cons m msgs ih =>
      rw [List.find?_eq_none] at hfind
      have hid : ¬ correlationId m = some id := by simpa using hfind m List.mem_cons_self
      rw [List.foldl_cons, ih (List.find?_eq_none.mpr fun x hx => hfind x (List.mem_cons_of_mem _ hx)),
        pending_settle, if_neg hid]

theorem bytesOf_act (before : List (Event RequestAction)) (action : RequestAction) :
    bytesOf (before ++ [.act action]) = bytesOf before := by
  rw [bytesOf_append]
  exact List.append_nil _

/-- Where there is room, nothing fails. -/
theorem steady_connect (h : Splits maxSize payloads events) (hroom : Room maxSize payloads)
    (hpre : before <+: events) :
    Steady payloads (bytesOf before).length (connect maxSize before) := by
  induction before using List.reverseRecOn with
  | nil => exact ⟨rfl, sound_empty, (cut_zero _).symm⟩
  | append_singleton before event ih =>
      have hsteady := ih ((List.prefix_append _ _).trans hpre)
      cases event with
      | data chunk =>
          exact (steady_of_smooth h hpre (h.length_cut_le hroom hpre) hsteady
            (smooth_clientFrame _ _)).1
      | act action =>
          rw [connect, run_append, bytesOf_act]
          exact ⟨hsteady.open_, hsteady.sound, hsteady.bytes_eq⟩

theorem resolved_of_room (h : Splits maxSize payloads events) (hroom : Room maxSize payloads) :
    Resolved maxSize payloads events := by
  have hstate : ∀ {before chunk}, before ++ [.data chunk] <+: events →
      (connect maxSize (before ++ [.data chunk])).state =
        ((completed payloads before chunk).filterMap parsePayload).foldl settle
          (connect maxSize before).state := by
    intro before chunk hpre
    have hsteady := steady_connect h hroom ((List.prefix_append _ _).trans hpre)
    rw [← handled_clientFrame]
    exact (steady_of_smooth h hpre (h.length_cut_le hroom hpre) hsteady (smooth_clientFrame _ _)).2
  refine ⟨(steady_connect h hroom List.prefix_rfl).open_, ?_, ?_⟩
  · intro before chunk hpre id number hpending msg hfind
    rw [hstate hpre]
    exact answered_foldl hpending hfind
  · intro before chunk hpre id number hpending hfind
    rw [hstate hpre, waits_foldl hfind, hpending]

/-- A client that does not fail had room for every chunk. -/
theorem Resolved.room (h : Resolved maxSize payloads events) (hsplits : Splits maxSize payloads events) :
    Room maxSize payloads := by
  have hopen : ∀ {before}, before <+: events → (connect maxSize before).failed = false :=
    fun hpre => failed_mono hpre h.stays_open
  have hsteady : ∀ {before}, before <+: events →
      Steady payloads (bytesOf before).length (connect maxSize before) := by
    intro before hpre
    induction before using List.reverseRecOn with
    | nil => exact ⟨rfl, sound_empty, (cut_zero _).symm⟩
    | append_singleton before event ih =>
        have hbefore := ih ((List.prefix_append _ _).trans hpre)
        cases event with
        | data chunk =>
            have hcap := cap_of_open hsplits hpre hbefore (hopen hpre)
            exact (steady_of_smooth hsplits hpre hcap hbefore (smooth_clientFrame _ _)).1
        | act action =>
            rw [connect, run_append, bytesOf_act]
            exact ⟨hbefore.open_, hbefore.sound, hbefore.bytes_eq⟩
  exact hsplits.room fun before chunk hpre =>
    cap_of_open hsplits hpre (hsteady ((List.prefix_append _ _).trans hpre)) (hopen hpre)

/-! ## Both ends -/

/-- The server delivers all messages exactly if its buffer has room and no chunk completes a frame
that throws together with the next one; the client resolves its requests exactly if its buffer has
room. -/
theorem frames_delivered (maxSize : Nat) (payloads : List Bytes) :
    (∀ onMessage chunks, Splits maxSize payloads (dataEvents chunks) →
      (Served onMessage maxSize payloads chunks ↔ Apart onMessage maxSize payloads chunks)) ∧
      ∀ events, Splits maxSize payloads events →
        (Resolved maxSize payloads events ↔ Room maxSize payloads) :=
  ⟨fun _ _ hsplits => ⟨fun h => h.apart hsplits, fun h => h.served hsplits⟩,
    fun _ hsplits => ⟨fun h => h.room hsplits, resolved_of_room hsplits⟩⟩

/-- The bytes of a message with the three required fields. -/
def sampleMessage : Bytes :=
  [123, 34, 116, 121, 112, 101, 34, 58, 34, 97, 34, 44, 34, 102, 114, 111, 109, 34, 58, 34, 98,
  34, 44, 34, 116, 105, 109, 101, 115, 116, 97, 109, 112, 34, 58, 49, 125]

/-- The bytes of an object with the correlation id `c`. -/
def sampleAnswer : Bytes :=
  [123, 34, 99, 111, 114, 114, 101, 108, 97, 116, 105, 111, 110, 73, 100, 34, 58, 34, 99, 34, 125]

def sampleChunks : List Bytes :=
  [(socketFraming.encode sampleMessage).take 5, (socketFraming.encode sampleMessage).drop 5]

def sampleEvents : List (Event RequestAction) :=
  [.act (.request "c" 7), .data (socketFraming.encode sampleAnswer)]

theorem fits_sample : socketFraming.Fits 64 sampleMessage ∧ socketFraming.Fits 64 sampleAnswer :=
  ⟨⟨by decide, by decide⟩, ⟨by decide, by decide⟩⟩

/-- A message in two chunks, and an answer to a request. -/
theorem frames_delivered_sample :
    (serve (fun _ _ => .returned) 64 sampleChunks).state = [sampleMessage].filterMap message ∧
      (connect 64 sampleEvents).failed = false := by
  have hserver : Splits 64 [sampleMessage] (dataEvents sampleChunks) := by
    refine ⟨List.forall_mem_singleton.mpr fits_sample.1, fun chunk hmem => ?_, rfl⟩
    have hsmall : ∀ chunk ∈ sampleChunks, chunk.length ≤ 64 := by decide
    obtain ⟨chunk', hchunk', hdata⟩ := List.mem_map.mp hmem
    obtain rfl := Event.data.inj hdata
    exact hsmall _ hchunk'
  have hclient : Splits 64 [sampleAnswer] sampleEvents := by
    refine ⟨List.forall_mem_singleton.mpr fits_sample.2, fun chunk hmem => ?_, rfl⟩
    rcases List.mem_cons.mp hmem with hact | hmem
    · cases hact
    · obtain rfl := Event.data.inj (List.mem_singleton.mp hmem)
      decide
  have hapart : Apart (fun _ _ => .returned) 64 [sampleMessage] sampleChunks := by
    refine ⟨.inl (by decide), ?_, ?_⟩
    · rintro before payload after - ⟨msg, -, houtcome⟩
      cases houtcome
    · intro earlier chunk _ before payload next after hsplit
      have hlength := congrArg List.length hsplit
      simp only [List.length_append, List.length_cons, List.length_nil] at hlength
      omega
  exact ⟨(((frames_delivered _ _).1 _ _ hserver).mpr hapart).calls,
    (((frames_delivered _ _).2 _ hclient).mpr (.inl (by decide))).stays_open⟩

/-- An empty payload before a message. -/
def emptyFirst : List Bytes := [[], sampleMessage]

/-- Both frames come in one chunk: `JSON.parse` throws, and the message is left in the buffer. -/
theorem message_left_behind :
    Splits 64 emptyFirst (dataEvents [socketFraming.encodeAll emptyFirst]) ∧
      (message sampleMessage).isSome ∧
      (serve (fun _ _ => .returned) 64 [socketFraming.encodeAll emptyFirst]).state = [] ∧
      ¬ Served (fun _ _ => .returned) 64 emptyFirst [socketFraming.encodeAll emptyFirst] := by
  have hstate : (serve (fun _ _ => .returned) 64 [socketFraming.encodeAll emptyFirst]).state = [] :=
    List.length_eq_zero_iff.mp (by decide +kernel)
  have hmessage : (message sampleMessage).isSome := by decide +kernel
  refine ⟨⟨?_, fun chunk hmem => ?_, ?_⟩, hmessage, hstate, fun hserved => ?_⟩
  · exact List.forall_mem_cons.mpr
      ⟨⟨Nat.zero_le _, by decide⟩, List.forall_mem_singleton.mpr fits_sample.1⟩
  · obtain rfl := Event.data.inj (List.mem_singleton.mp hmem)
    decide
  · exact List.append_nil _
  · obtain ⟨msg, hmsg⟩ := Option.isSome_iff_exists.mp hmessage
    have hcalls := hserved.calls
    rw [hstate, emptyFirst, List.filterMap_cons, List.filterMap_cons_some hmsg] at hcalls
    split at hcalls <;> cases hcalls

end ThinkLocal.Ipc
