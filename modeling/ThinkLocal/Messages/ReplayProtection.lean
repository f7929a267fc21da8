import ThinkLocal.Foundation.Segments
import ThinkLocal.Messages.Replay

/-!
# Replay protection

An envelope is to be handed over at most once, and only messages whose sender and key were
handed over are to be answered as duplicates.

The second always holds, as an authorised sender has no colon after its scheme.  The first
needs that the guard still remembers an envelope for as long as the envelope is valid.  The
guard measures the time to live from the handover and not from the timestamp, takes a time
to live of zero for none at all, and forgets everything after two minutes.
-/

namespace ThinkLocal.Messages

open Foundation Machine Js Mesh ReplayGuard

variable {C : Codec} {pins : List String} {s s' : NodeState} {d : Delivery}

/-! ## Senders and keys -/

/-- After the scheme there is no colon. -/
def SchemeOnly (sender : String) : Prop :=
  ∃ rest, sender.toList = "spiffe:".toList ++ rest ∧ ':' ∉ rest

theorem schemeOnly_of_spiffeUriToPeerId {sender peerId : String}
    (h : spiffeUriToPeerId sender = some peerId) : SchemeOnly sender := by
  obtain ⟨text, htext, hpeer⟩ := Option.bind_eq_some_iff.mp h
  unfold afterPrefix at htext
  split at htext
  case isFalse => cases htext
  case isTrue hprefix =>
    obtain rfl := Option.some.inj htext
    split at hpeer
    case isFalse => cases hpeer
    case isTrue hid =>
      obtain ⟨rest, hrest⟩ := hprefix
      have hdrop : List.drop canonicalPrefix.toList.length sender.toList = rest := by
        rw [← hrest, List.drop_left]
      rw [hdrop] at hid
      have halnum := (of_decide_eq_true hid).2
      refine ⟨"//thinklocal/node/".toList ++ rest, ?_, ?_⟩
      · rw [← hrest, ← List.append_assoc]
        rfl
      · intro hcolon
        rcases List.mem_append.mp hcolon with hfix | hvar
        · revert hfix
          decide
        · have := List.all_eq_true.mp halnum _ hvar
          revert this
          decide

theorem schemeOnly_of_isLegacyHostUri {sender : String} (h : isLegacyHostUri sender = true) :
    SchemeOnly sender := by
  unfold isLegacyHostUri at h
  split at h
  case h_2 => cases h
  case h_1 stableNodeId agentType hparts =>
    rw [Bool.and_eq_true] at h
    have hid : ':' ∉ stableNodeId.toList := notMem_of_isComponent h.1 (by decide)
    have htype : ':' ∉ agentType.toList := notMem_of_isComponent h.2 (by decide)
    have hsender : joinSegments '/' (segments '/' sender) = sender := joinSegments_segments
    rw [segments, hparts] at hsender
    refine ⟨"//thinklocal/host/".toList ++ (stableNodeId.toList ++
      ("/agent/".toList ++ agentType.toList)), ?_, ?_⟩
    · rw [← hsender, joinSegments, String.toList_ofList]
      simp [List.intercalate]
    · simp only [List.mem_append, not_or]
      exact ⟨by decide, hid, by decide, htype⟩

theorem schemeOnly_of_authorized {sender : String} {cert : Option String}
    (h : (authorizeHttpsSender sender cert).ok = true) : SchemeOnly sender := by
  unfold authorizeHttpsSender at h
  cases hpeer : spiffeUriToPeerId sender with
  | some peerId => exact schemeOnly_of_spiffeUriToPeerId hpeer
  | none =>
      rw [hpeer] at h
      dsimp only at h
      split at h
      case isTrue hlegacy => exact schemeOnly_of_isLegacyHostUri hlegacy
      case isFalse => cases h

/-- Sender and key can be read off the text of both. -/
theorem joined_injective {sender sender' key key' : String} (h : SchemeOnly sender)
    (h' : SchemeOnly sender') (hjoined : joined sender key = joined sender' key') :
    sender = sender' ∧ key = key' := by
  obtain ⟨rest, hsender, hcolon⟩ := h
  obtain ⟨rest', hsender', hcolon'⟩ := h'
  have hlists := congrArg String.toList hjoined
  simp only [joined, String.toList_append, hsender, hsender', List.append_assoc] at hlists
  have htails : rest ++ ':' :: key.toList = rest' ++ ':' :: key'.toList :=
    List.append_cancel_left hlists
  obtain ⟨rfl, hkeys⟩ := append_cons_injective hcolon hcolon' htails
  exact ⟨String.toList_inj.mp (hsender.trans hsender'.symm), String.toList_inj.mp hkeys⟩

/-! ## One delivery -/

theorem verify_of_delivered {m : MeshManager} {message : InboundMessage} {now : Nat}
    {certVerification : Option (String × Option MeshManager.Undo)}
    (h : (verifyEnvelope m message now certVerification).reply = .delivered) :
    ∃ key, message.verify key = .envelope := by
  unfold verifyEnvelope at h
  split at h
  · cases h
  · rename_i senderKey _
    cases hverify : message.verify senderKey with
    | envelope => exact ⟨senderKey, hverify⟩
    | refused | threw =>
        rw [hverify] at h
        cases h

/-- A message that goes on comes from an authorised sender and is valid under some key. -/
theorem of_delivered {m : MeshManager} {message : InboundMessage} {now : Nat}
    (h : (handleMessage pins m message now).reply = .delivered) :
    SchemeOnly message.sender ∧ ∃ key, message.verify key = .envelope := by
  unfold handleMessage at h
  dsimp only at h
  split at h
  case isTrue => cases h
  case isFalse hok =>
    refine ⟨schemeOnly_of_authorized (by simpa using hok), ?_⟩
    split at h
    case isTrue => cases h
    case isFalse =>
      split at h
      · exact verify_of_delivered h
      · exact verify_of_delivered h

/-- The answer leaves no trace. -/
def Answer.Dropped : Answer → Prop
  | .handed _ _ | .duplicate _ => False
  | _ => True

theorem record_of_dropped {answer : Answer} (h : answer.Dropped) (now : Nat) :
    s.record now answer = s := by
  cases answer with
  | handed | duplicate => exact h.elim
  | emptyBody | tooLarge | invalidFormat | refused => rfl

/-- The guard is asked about nothing but valid messages of authorised senders. -/
theorem postMessage_cases (guard : ReplayGuard) :
    (∃ answer, postMessage C pins guard d = (guard, answer) ∧ answer.Dropped) ∨
      ∃ signed envelope, C.deserializeSignedMessage d.body = some signed ∧
        C.decode signed.envelope = some envelope ∧ SchemeOnly envelope.sender ∧
        expired C envelope d.verifiedAt = false ∧
        postMessage C pins guard d = checkReplay guard signed.envelope envelope d.checkedAt := by
  unfold postMessage
  split
  · exact .inl ⟨_, rfl, trivial⟩
  split
  · exact .inl ⟨_, rfl, trivial⟩
  cases hsigned : C.deserializeSignedMessage d.body with
  | none => exact .inl ⟨_, rfl, trivial⟩
  | some signed =>
      cases henvelope : C.decode signed.envelope with
      | none => exact .inl ⟨.invalidFormat, by simp [henvelope], trivial⟩
      | some envelope =>
          simp only [henvelope]
          split
          case isFalse => exact .inl ⟨_, rfl, trivial⟩
          case isTrue hdelivered =>
            obtain ⟨hsender, key, hverify⟩ := of_delivered hdelivered
            refine .inr ⟨signed, envelope, rfl, henvelope, hsender, ?_, rfl⟩
            simp only [Delivery.inbound] at hverify
            split at hverify
            case h_1 | h_2 => cases hverify
            case h_3 verified hdecoded =>
              obtain ⟨-, hdecode, hvalid⟩ := (decodeAndVerify_eq_some C).mp hdecoded
              obtain rfl := Option.some.inj (henvelope.symm.trans hdecode)
              exact hvalid

/-! ## What the guard remembers -/

/-- The guard knows what was handed over, except for what a clean-up dropped. -/
structure Remembers (C : Codec) (s : NodeState) : Prop where
  cleaned : s.cleanedAt ≤ s.clock
  past : ∀ h ∈ s.handed, h.handedAt ≤ s.clock
  remembered : ∀ h ∈ s.handed,
    (∃ t, s.guard.seen.get (joined h.sender h.idempotencyKey) = some t ∧ h.handedAt ≤ t) ∨
      h.handedAt + 120000 < s.cleanedAt
  known : ∀ key t, s.guard.seen.get key = some t →
    ∃ h ∈ s.handed, joined h.sender h.idempotencyKey = key
  senders : ∀ h ∈ s.handed, SchemeOnly h.sender
  decoded : ∀ h ∈ s.handed, ∃ envelope, C.decode h.bytes = some envelope ∧
    envelope.sender = h.sender ∧ envelope.idempotency_key = h.idempotencyKey

theorem Remembers.later (h : Remembers C s) {now : Nat} (hnow : s.clock ≤ now) :
    Remembers C { s with clock := now } where
  cleaned := h.cleaned.trans hnow
  past := fun x hx => (h.past x hx).trans hnow
  remembered := h.remembered
  known := h.known
  senders := h.senders
  decoded := h.decoded

theorem Remembers.cleanup (h : Remembers C s) {now : Nat} (hnow : s.clock ≤ now) :
    Remembers C { s with guard := s.guard.cleanup now, clock := now, cleanedAt := now } where
  cleaned := Nat.le_refl now
  past := fun x hx => (h.past x hx).trans hnow
  remembered := by
    intro x hx
    have hcleaned := h.cleaned
    rcases h.remembered x hx with ⟨t, ht, hle⟩ | hgone
    · by_cases hold : (t : Int) < now - 120000
      · -- The entry is dropped, so the handover is older still.
        right
        show x.handedAt + 120000 < now
        omega
      · left
        refine ⟨t, ?_, hle⟩
        show ((s.guard.seen.filter _).get _) = some t
        rw [InsertionMap.get_filter, ht]
        simpa using hold
    · right
      show x.handedAt + 120000 < now
      omega
  known := by
    intro key t ht
    have hkept : (s.guard.seen.filter _).get key = some t := ht
    rw [InsertionMap.get_filter] at hkept
    exact h.known key t (Option.filter_eq_some_iff.mp hkept).1
  senders := h.senders
  decoded := h.decoded

/-- A new envelope is handed over. -/
theorem Remembers.hand (h : Remembers C s) {bytes : Bytes} {envelope : MessageEnvelope}
    (hdecode : C.decode bytes = some envelope) (hsender : SchemeOnly envelope.sender) :
    Remembers C
      { s with
        guard := { s.guard with
          seen := s.guard.seen.set (joined envelope.sender envelope.idempotency_key) s.clock }
        handed := ⟨bytes, envelope.sender, envelope.idempotency_key, s.clock⟩ :: s.handed } where
  cleaned := h.cleaned
  past := by
    intro x hx
    -- an older envelope with the same key is remembered at the new time
    rcases List.mem_cons.mp hx with rfl | hold
    · exact Nat.le_refl s.clock
    · exact h.past x hold
  remembered := by
    intro x hx
    simp only [InsertionMap.get_set]
    split
    case isTrue =>
      rcases List.mem_cons.mp hx with rfl | hold
      · exact .inl ⟨s.clock, rfl, Nat.le_refl s.clock⟩
      · exact .inl ⟨s.clock, rfl, h.past x hold⟩
    case isFalse hne =>
      rcases List.mem_cons.mp hx with rfl | hold
      · exact absurd rfl hne
      · exact h.remembered x hold
  known := by
    intro key t ht
    simp only [InsertionMap.get_set] at ht
    split at ht
    case isTrue hkey => exact ⟨_, List.mem_cons_self, hkey.symm⟩
    case isFalse =>
      obtain ⟨x, hx, hjoined⟩ := h.known key t ht
      exact ⟨x, List.mem_cons_of_mem _ hx, hjoined⟩
  senders := by
    intro x hx
    rcases List.mem_cons.mp hx with rfl | hold
    · exact hsender
    · exact h.senders x hold
  decoded := by
    intro x hx
    rcases List.mem_cons.mp hx with rfl | hold
    · exact ⟨envelope, hdecode, rfl, rfl⟩
    · exact h.decoded x hold

/-! ## Runs -/

structure Protected (s : NodeState) : Prop where
  once : (s.handed.map Handover.bytes).Nodup
  duplicates : ∀ x ∈ s.duplicates, x.known = true

/-- A valid envelope that comes again comes before its time to live has passed since the
handover, and no clean-up was later than two minutes after it. -/
def Covered (C : Codec) (s : NodeState) : NodeAction → Prop
  | .cleanup _ => True
  | .deliver d =>
      ∀ signed ∈ C.deserializeSignedMessage d.body, ∀ envelope ∈ C.decode signed.envelope,
        ∀ h ∈ s.handed, h.bytes = signed.envelope → expired C envelope d.verifiedAt = false →
          (Number.ofInt (d.checkedAt - h.handedAt)).lt envelope.ttl_ms = true ∧
            s.cleanedAt ≤ h.handedAt + 120000

instance (C : Codec) (s : NodeState) : (a : NodeAction) → Decidable (Covered C s a)
  | .cleanup _ => .isTrue trivial
  | .deliver d =>
      inferInstanceAs (Decidable (∀ signed ∈ C.deserializeSignedMessage d.body,
        ∀ envelope ∈ C.decode signed.envelope, ∀ h ∈ s.handed, _ → _ → _ ∧ _))

/-- The guard finds a covered envelope that was handed over. -/
theorem isReplay_of_handed (h : Remembers C s) {x : Handover} (hx : x ∈ s.handed)
    {ttl : Number} {now : Nat} (hkept : s.cleanedAt ≤ x.handedAt + 120000)
    (hnow : (Number.ofInt (now - x.handedAt)).lt ttl = true) :
    (s.guard.isReplay x.sender x.idempotencyKey ttl now).1 = true := by
  rcases h.remembered x hx with ⟨t, ht, hle⟩ | hgone
  · have hlt : (Number.ofInt (now - t)).lt ttl = true := by
      refine Number.ofInt_lt_of_le ?_ hnow
      omega
    simp [isReplay, ht, hlt]
  · omega

/-- What the guard takes for a replay has the sender and key of a handover. -/
theorem known_of_isReplay (h : Remembers C s) {sender key : String} {ttl : Number} {now : Nat}
    (hsender : SchemeOnly sender) (hreplay : (s.guard.isReplay sender key ttl now).1 = true) :
    ∃ x ∈ s.handed, x.sender = sender ∧ x.idempotencyKey = key := by
  unfold isReplay at hreplay
  dsimp only at hreplay
  split at hreplay
  case isFalse => cases hreplay
  case isTrue hseen =>
    obtain ⟨t, ht, -⟩ := (Option.any_eq_true _ _).mp hseen
    obtain ⟨x, hx, hjoined⟩ := h.known _ t ht
    exact ⟨x, hx, joined_injective (h.senders x hx) hsender hjoined⟩

theorem protected_record (h : Remembers C s) (hp : Protected s) {bytes : Bytes}
    {envelope : MessageEnvelope} (hdecode : C.decode bytes = some envelope)
    (hsender : SchemeOnly envelope.sender)
    (hcovered : ∀ x ∈ s.handed, x.bytes = bytes →
      (Number.ofInt (s.clock - x.handedAt)).lt envelope.ttl_ms = true ∧
        s.cleanedAt ≤ x.handedAt + 120000) :
    let checked := checkReplay s.guard bytes envelope s.clock
    Remembers C ({ s with guard := checked.1 }.record s.clock checked.2) ∧
      Protected ({ s with guard := checked.1 }.record s.clock checked.2) := by
  by_cases hreplay : (s.guard.isReplay envelope.sender envelope.idempotency_key envelope.ttl_ms
      s.clock).1 = true
  · -- It is answered as a duplicate.
    obtain ⟨x, hx, hsame⟩ := known_of_isReplay h hsender hreplay
    have hguard : (s.guard.isReplay envelope.sender envelope.idempotency_key envelope.ttl_ms
        s.clock).2 = s.guard := by
      unfold isReplay at hreplay ⊢
      dsimp only at hreplay ⊢
      split
      · rfl
      · rename_i hnot
        rw [if_neg hnot] at hreplay
        cases hreplay
    simp only [checkReplay, hreplay, hguard, if_true, NodeState.record]
    refine ⟨⟨h.cleaned, h.past, h.remembered, h.known, h.senders, h.decoded⟩, hp.once, ?_⟩
    intro y hy
    rcases List.mem_cons.mp hy with rfl | hold
    · exact List.any_eq_true.mpr ⟨x, hx, decide_eq_true hsame⟩
    · exact hp.duplicates y hold
  · -- It is handed over, and it is not one that was handed over before.
    have hnew : bytes ∉ s.handed.map Handover.bytes := by
      intro hmem
      obtain ⟨x, hx, hbytes⟩ := List.mem_map.mp hmem
      obtain ⟨handed, hhanded, hsame, hkey⟩ := h.decoded x hx
      rw [hbytes] at hhanded
      obtain rfl := Option.some.inj (hdecode.symm.trans hhanded)
      obtain ⟨hlt, hkept⟩ := hcovered x hx hbytes
      rw [hsame, hkey] at hreplay
      exact hreplay (isReplay_of_handed h hx hkept hlt)
    have hguard : (s.guard.isReplay envelope.sender envelope.idempotency_key envelope.ttl_ms
        s.clock).2 = { s.guard with
          seen := s.guard.seen.set (joined envelope.sender envelope.idempotency_key) s.clock } := by
      unfold isReplay at hreplay ⊢
      dsimp only at hreplay ⊢
      split
      · rename_i hseen
        rw [if_pos hseen] at hreplay
        exact absurd rfl hreplay
      · rfl
    simp only [checkReplay, hguard, if_neg hreplay, NodeState.record]
    exact ⟨h.hand hdecode hsender, List.nodup_cons.mpr ⟨hnew, hp.once⟩, hp.duplicates⟩

theorem protected_step {a : NodeAction} (h : Remembers C s) (hp : Protected s)
    (hcovered : Covered C s a) (hstep : nodeStep C pins s a = some s') :
    Remembers C s' ∧ Protected s' := by
  cases a with
  | cleanup now =>
      unfold nodeStep at hstep
      dsimp only at hstep
      split at hstep
      case isFalse => cases hstep
      case isTrue hnow =>
        obtain rfl := Option.some.inj hstep
        exact ⟨h.cleanup hnow, hp.once, hp.duplicates⟩
  | deliver d =>
      unfold nodeStep at hstep
      dsimp only at hstep
      split at hstep
      case isFalse => cases hstep
      case isTrue hclock =>
        obtain rfl := Option.some.inj hstep
        have hlater : Remembers C { s with clock := d.checkedAt } := h.later (by omega)
        have hprotected : Protected { s with clock := d.checkedAt } := ⟨hp.once, hp.duplicates⟩
        rcases postMessage_cases (C := C) (d := d) s.guard with
          ⟨answer, hpost, hdropped⟩ | ⟨signed, envelope, hsigned, hdecode, hsender, hvalid, hpost⟩
        · rw [hpost, record_of_dropped hdropped]
          exact ⟨hlater, hprotected⟩
        · rw [hpost]
          exact protected_record hlater hprotected hdecode hsender fun x hx hbytes =>
            hcovered signed hsigned envelope hdecode x hx hbytes hvalid

theorem remembers_init : Remembers C (replayNode C pins).init where
  cleaned := Nat.le_refl 0
  past := by simp [replayNode]
  remembered := by simp [replayNode]
  known := by simp [replayNode]
  senders := by simp [replayNode]
  decoded := by simp [replayNode]

theorem protected_init : Protected (replayNode C pins).init :=
  ⟨by simp [replayNode], by simp [replayNode]⟩

/-- In the runs in which every valid envelope that comes again is covered, no envelope is handed
over twice and duplicates are answered only to what was handed over. -/
theorem replay_protected (h : (replayNode C pins).ReachableUnder (Covered C) s) : Protected s := by
  have hboth : Remembers C s ∧ Protected s := by
    refine h.invariant (I := fun s => Remembers C s ∧ Protected s)
      ⟨remembers_init, protected_init⟩ ?_
    intro s a s' hs hcovered hstep
    exact protected_step hs.1 hs.2 hcovered hstep
  exact hboth.2

/-! ### Short-lived messages

The windows of expiry and memory cover each other for messages that live at most two minutes
and are older at their handover than a handler takes between its two looks at the clock. -/

def ShortLived (C : Codec) (s : NodeState) : NodeAction → Prop
  | .cleanup _ => True
  | .deliver d =>
      ∀ signed ∈ C.deserializeSignedMessage d.body, ∀ envelope ∈ C.decode signed.envelope,
        ∀ h ∈ s.handed, h.bytes = signed.envelope →
          (Number.ofInt 0).lt envelope.ttl_ms = true ∧
            (Number.ofInt 120000).lt envelope.ttl_ms = false ∧
            ∃ created, C.getTime envelope.timestamp = some created ∧
              created + (d.checkedAt - d.verifiedAt) < h.handedAt

theorem covered_of_shortLived (h : Remembers C s) {a : NodeAction} (hshort : ShortLived C s a)
    (hstep : nodeStep C pins s a = some s') : Covered C s a := by
  cases a with
  | cleanup now => trivial
  | deliver d =>
      have hclock : s.clock ≤ d.verifiedAt ∧ d.verifiedAt ≤ d.checkedAt := by
        unfold nodeStep at hstep
        dsimp only at hstep
        split at hstep
        · omega
        · cases hstep
      intro signed hsigned envelope henvelope x hx hbytes hvalid
      obtain ⟨hpositive, hlimit, created, hcreated, hold⟩ :=
        hshort signed hsigned envelope henvelope x hx hbytes
      have hnan : envelope.ttl_ms ≠ .nan := by
        intro hnan
        rw [hnan] at hpositive
        cases hpositive
      have hunexpired : envelope.ttl_ms.lt (.ofInt (d.verifiedAt - created)) = false := by
        simpa [expired, hpositive, hcreated] using hvalid
      -- The time to live has not passed since the timestamp, nor since the later handover.
      have hyoung : ∀ n : Int, n < d.verifiedAt - created →
          (Number.ofInt n).lt envelope.ttl_ms = true :=
        fun n hn => Number.ofInt_lt_of_not_lt hnan hn hunexpired
      constructor
      · exact hyoung _ (by omega)
      · have hcleaned := h.cleaned
        by_contra hlate
        have hexceeds := hyoung 120000 (by omega)
        rw [hlimit] at hexceeds
        cases hexceeds

/-- Short-lived messages are protected without looking at the guard. -/
theorem protected_of_shortLived (h : (replayNode C pins).ReachableUnder (ShortLived C) s) :
    Protected s := by
  have hboth : Remembers C s ∧ Protected s := by
    refine h.invariant (I := fun s => Remembers C s ∧ Protected s)
      ⟨remembers_init, protected_init⟩ ?_
    intro s a s' hs hshort hstep
    exact protected_step hs.1 hs.2 (covered_of_shortLived hs.1 hshort hstep) hstep
  exact hboth.2

/-! A legacy peer whose messages were made at time 0.  Their first byte is the time to live in
minutes. -/

def sampleCodec : Codec where
  encode _ := []
  decode bytes := some
    { id := "id", type := MessageType.AGENT_MESSAGE, correlation_id := "id"
      sender := "spiffe://thinklocal/host/b/agent/codex", timestamp := "0"
      ttl_ms := .ofInt ((bytes.headD 0).toNat * 60000), idempotency_key := "id"
      payload := .null }
  deserializeSignedMessage body := some ⟨body, []⟩
  signData _ _ := []
  verifySignature key _ _ := some (key = "key")
  getTime _ := some 0

def sampleMesh : MeshManager :=
  let uri := "spiffe://thinklocal/host/b/agent/codex"
  (MeshManager.empty.addPeer ⟨"b", "10.10.10.2", 9440, uri, "https://10.10.10.2:9440", none⟩
    0).updateAgentCard uri ⟨uri, "key", none⟩

/-- A message of the peer with a time to live in minutes. -/
def sampleDelivery (minutes : UInt8) (now : Nat) : NodeAction :=
  .deliver
    { body := [minutes], certSans := [], issuerFingerprint := none
      remoteAddress := some "10.10.10.2", mesh := sampleMesh, resolvedAt := now
      verifiedAt := now, checkedAt := now }

/-- The same message, again after a clean-up, is handed over once. -/
theorem replay_protected_sample :
    ∃ s : NodeState, s.handed.length = 1 ∧ s.duplicates.length = 1 ∧ Protected s := by
  let actions := [sampleDelivery 1 5, .cleanup 50000, sampleDelivery 1 60000]
  have hrun : (((replayNode sampleCodec []).runFrom (replayNode sampleCodec []).init actions).any fun s =>
      decide (s.handed.length = 1 ∧ s.duplicates.length = 1)) = true := by decide
  obtain ⟨s, hs, hlengths⟩ := (Option.any_eq_true _ _).mp hrun
  have hmeets : (replayNode sampleCodec []).Meets (Covered sampleCodec) (replayNode sampleCodec []).init
      actions := by
    decide
  obtain ⟨hhanded, hduplicates⟩ := of_decide_eq_true hlengths
  exact ⟨s, hhanded, hduplicates, replay_protected (.runFrom .init hmeets hs)⟩

/-- A message without expiry is handed over each time it comes. -/
theorem replay_unprotected :
    ¬ ∀ s, (replayNode sampleCodec []).Reachable s → Protected s := by
  intro h
  let actions := [sampleDelivery 0 5, sampleDelivery 0 5]
  have hrun : (((replayNode sampleCodec []).runFrom (replayNode sampleCodec []).init actions).any fun s =>
      decide (¬ (s.handed.map Handover.bytes).Nodup)) = true := by decide
  obtain ⟨s, hs, htwice⟩ := (Option.any_eq_true _ _).mp hrun
  exact of_decide_eq_true htwice (h s (reachable_of_runFrom hs)).once

end ThinkLocal.Messages
