import ThinkLocal.Approval.TelegramMeldekanal

/-!
# An approval and its row

`decide` never overwrites a decision and returns the existing one, but the channel does not look at
what it returns: an approve click on a row that somebody else has rejected is answered as an
approval.  Where no approve click meets such a row, every approval has an approved row.  A request
is answered once, and an abort takes its waiter away for good, in every run.
-/

namespace ThinkLocal.Approval

open Foundation Js

variable {options : TelegramMeldekanalOptions} {s s' : State} {rows rows' : Approvals} {id : String}

/-! ## What `decide` does to the table -/

/-- The status of a row. -/
def status (rows : Approvals) (id : String) : Option ApprovalStatus :=
  (rows.get id).map ApprovalRow.status

theorem isRowApproved_eq : isRowApproved rows id = true ↔ status rows id = some .approved := by
  cases h : rows.get id <;> simp [isRowApproved, status, h]

theorem status_isSome : (status rows id).isSome = (rows.get id).isSome := Option.isSome_map

/-- An update decides a pending row and nothing else. -/
theorem status_updatePending (decision : Decision) (id' : String) :
    status (updatePending rows id decision) id' =
      if id' = id ∧ status rows id = some .pending then some decision.status.status
      else status rows id' := by
  unfold updatePending
  cases hrow : rows.get id with
  | none => simp [status, hrow]
  | some row =>
      by_cases hpending : row.status = .pending
      · by_cases hid : id' = id
        · simp [status, hrow, hpending, hid]
        · simp [status, hpending, hid, InsertionMap.get_set_of_ne _ _ hid]
      · simp [status, hrow, hpending]

theorem get_updatePending_of_ne (decision : Decision) {id' : String} (hid : id' ≠ id) :
    (updatePending rows id decision).get id' = rows.get id' := by
  unfold updatePending
  split
  case h_2 => rfl
  case h_1 =>
    split
    case isTrue => exact InsertionMap.get_set_of_ne _ _ hid
    case isFalse => rfl

/-- The table after `decide` is made by updates of its row. -/
theorem decide_induction {P : Approvals → Prop} (verdict : Verdict) (note : Option String)
    (io : DecideIo) (hP : ∀ rows decision, P rows → P (updatePending rows id decision))
    (h : P rows) : P (decide rows id verdict note io).1 := by
  unfold decide
  dsimp only
  by_cases hselect : io.fails = some .select
  · rwa [if_pos hselect]
  · rw [if_neg hselect]
    cases rows.get id with
    | none => exact h
    | some row =>
        dsimp only
        split
        · exact h
        · -- another decision may come between the two readings of the row
          cases io.between with
          | none =>
              dsimp only
              split_ifs
              · exact h
              · exact hP _ _ h
              · exact hP _ _ h
          | some decision =>
              dsimp only
              split_ifs
              · exact hP _ _ h
              · exact hP _ _ (hP _ _ h)
              · exact hP _ _ (hP _ _ h)

theorem get_decide_of_ne (verdict : Verdict) (note : Option String) (io : DecideIo) {id' : String}
    (hid : id' ≠ id) : (decide rows id verdict note io).1.get id' = rows.get id' :=
  decide_induction (P := fun rows' => rows'.get id' = rows.get id') verdict note io
    (fun _ decision h => (get_updatePending_of_ne decision hid).trans h) rfl

/-- A table that has the rows of another one, and its approved rows approved. -/
structure Keeps (rows rows' : Approvals) : Prop where
  present : ∀ id, (rows.get id).isSome → (rows'.get id).isSome
  approved : ∀ id, status rows id = some .approved → status rows' id = some .approved

theorem Keeps.refl (rows : Approvals) : Keeps rows rows := ⟨fun _ h => h, fun _ h => h⟩

theorem keeps_decide (verdict : Verdict) (note : Option String) (io : DecideIo) :
    Keeps rows (decide rows id verdict note io).1 := by
  refine decide_induction verdict note io (fun updated decision h => ⟨?_, ?_⟩) (.refl rows)
  · intro id' hid'
    have hsome := h.present id' hid'
    rw [← status_isSome] at hsome ⊢
    rw [status_updatePending]
    split
    · rfl
    · exact hsome
  · intro id' hid'
    have happroved := h.approved id' hid'
    rw [status_updatePending, if_neg, happroved]
    rintro ⟨rfl, hpending⟩
    cases happroved.symm.trans hpending

theorem keeps_create (input : CreateApprovalInput) (io : CreateIo) :
    Keeps rows (create rows input io).1 := by
  unfold create
  split
  case h_2 => exact .refl rows
  case h_1 =>
    split
    case isTrue => exact .refl rows
    case isFalse hfree =>
      have hnone : rows.get io.id = none := by
        simpa [InsertionMap.has] using fun h => hfree (.inl h)
      constructor
      · intro id hid
        rw [InsertionMap.get_set]
        split
        · rfl
        · exact hid
      · intro id hid
        have hne : id ≠ io.id := by
          rintro rfl
          simp [status, hnone] at hid
        rwa [status, InsertionMap.get_set_of_ne _ _ hne]

/-- A created row is new. -/
theorem create_eq_some {input : CreateApprovalInput} {io : CreateIo}
    (h : create rows input io = (rows', some id)) :
    rows.get id = none ∧ (rows'.get id).isSome ∧ Keeps rows rows' := by
  have hkeeps : Keeps rows rows' := by
    have hcreate : Keeps rows (create rows input io).1 := keeps_create input io
    rwa [h] at hcreate
  unfold create at h
  split at h
  case h_2 => cases h
  case h_1 =>
    split at h
    case isTrue => cases h
    case isFalse hfree =>
      obtain ⟨rfl, hid⟩ := Prod.mk.inj h
      obtain rfl := Option.some.inj hid
      refine ⟨by simpa [InsertionMap.has] using fun h => hfree (.inl h), ?_, hkeeps⟩
      rw [InsertionMap.get_set_self]
      rfl

/-- No rejection is found, and none comes from another process before the `UPDATE`. -/
def Undenied (io : DecideIo) : Option ApprovalStatus → Prop
  | some .rejected => io.fails = some .select
  | some .pending => io.fails = none → ∀ decision ∈ io.between, decision.status = .approved
  | _ => True

instance (io : DecideIo) (found : Option ApprovalStatus) : Decidable (Undenied io found) := by
  unfold Undenied
  split <;> infer_instance

/-- An approval that is not denied and does not throw leaves an approved row. -/
theorem status_decide_approved {note : Option String} {io : DecideIo} {found : Option ApprovalRow}
    (hrow : (rows.get id).isSome) (hC : Undenied io (status rows id))
    (h : decide rows id .approved note io = (rows', some found)) :
    status rows' id = some .approved := by
  obtain ⟨row, hrow⟩ := Option.isSome_iff_exists.mp hrow
  have hstatus : status rows id = some row.status := by simp [status, hrow]
  unfold decide at h
  dsimp only at h
  by_cases hselect : io.fails = some .select
  · rw [if_pos hselect] at h
    cases h
  rw [if_neg hselect, hrow] at h
  dsimp only at h
  rw [hstatus] at hC
  cases hfound : row.status with
  | approved =>
      rw [if_pos (by simp [hfound])] at h
      obtain ⟨rfl, -⟩ := Prod.mk.inj h
      rw [hstatus, hfound]
  | rejected =>
      rw [hfound] at hC
      exact absurd hC hselect
  | pending =>
      rw [if_neg (by simp [hfound])] at h
      split_ifs at h with hupdate hreread
      · cases (Prod.mk.inj h).2
      · cases (Prod.mk.inj h).2
      · obtain ⟨rfl, -⟩ := Prod.mk.inj h
        have hfails : io.fails = none := by
          cases hfails : io.fails with
          | none => rfl
          | some statement => cases statement <;> simp_all
        rw [hfound] at hC hstatus
        rw [status_updatePending]
        -- either this update meets the pending row, or the one of the other process did
        cases hbetween : io.between with
        | none => simp [hstatus, Verdict.status]
        | some decision =>
            have happroved : decision.status = .approved := hC hfails decision hbetween
            have hfirst : status (updatePending rows id decision) id = some .approved := by
              rw [status_updatePending, if_pos ⟨rfl, hstatus⟩, happroved]
              rfl
            simp [hfirst]

/-! ## Waiters and answers -/

/-- Every row that a request names is in the table, and no other request names it. -/
structure Owned (rows : Approvals) (requests : Arena Request) : Prop where
  written : ∀ i r id, requests.get i = some r → r.approvalId = some id → (rows.get id).isSome
  own : ∀ i j r r' id, requests.get i = some r → requests.get j = some r' →
    r.approvalId = some id → r'.approvalId = some id → i = j

/-- Who waits, who has an answer, and whose a row is. -/
structure Consistent (s : State) : Prop where
  waits : ∀ id waiter, s.pending.get id = some waiter →
    ∃ r, s.requests.get waiter.request = some r ∧ r.approvalId = some id ∧ r.phase = .waiting ∧
      r.aborted = false
  answered : ∀ p ∈ s.settlements, ∃ r, s.requests.get p.1 = some r ∧ r.phase = .settled
  once : (s.settlements.map Prod.fst).Nodup
  owned : Owned s.rows s.requests

/-- Every approval that was answered has an approved row. -/
def Durable (s : State) : Prop :=
  ∀ p ∈ s.settlements, p.2.outcome = .approved → ∃ r ∈ s.requests.get p.1, ∃ id ∈ r.approvalId,
    isRowApproved s.rows id = true

theorem Owned.of_keeps {requests : Arena Request} (h : Owned rows requests)
    (hrows : Keeps rows rows') : Owned rows' requests :=
  ⟨fun i r id hr hid => hrows.present id (h.written i r id hr hid), h.own⟩

/-- A change of a request that leaves its row. -/
theorem Owned.modify {requests : Arena Request} (h : Owned rows requests) (i : Nat)
    {f : Request → Request} (hf : ∀ r, (f r).approvalId = r.approvalId) :
    Owned rows (requests.modify i f) := by
  have hold : ∀ j r', (requests.modify i f).get j = some r' →
      ∃ r, requests.get j = some r ∧ r'.approvalId = r.approvalId := by
    intro j r' hr'
    obtain ⟨r, hr, ⟨-, rfl⟩ | ⟨-, rfl⟩⟩ := Arena.get_modify_eq_some hr'
    · exact ⟨r, hr, hf r⟩
    · exact ⟨r', hr, rfl⟩
  constructor
  · intro j r' id hr' hid
    obtain ⟨r, hr, hsame⟩ := hold j r' hr'
    exact h.written j r id hr (hsame.symm.trans hid)
  · intro j k r' r'' id hr' hr'' hid hid'
    obtain ⟨r, hr, hsame⟩ := hold j r' hr'
    obtain ⟨q, hq, hsame'⟩ := hold k r'' hr''
    exact h.own j k r q id hr hq (hsame.symm.trans hid) (hsame'.symm.trans hid')

/-- A new request has a row of its own or none. -/
theorem Owned.alloc {requests : Arena Request} (h : Owned rows requests) (r : Request)
    (hrow : ∀ id ∈ r.approvalId, (rows.get id).isSome ∧
      ∀ i r', requests.get i = some r' → r'.approvalId ≠ some id) :
    Owned rows (requests.alloc r) := by
  constructor
  · intro i r' id hr' hid
    rcases Arena.get_alloc_eq_some hr' with ⟨-, rfl⟩ | hold
    · exact (hrow id hid).1
    · exact h.written i r' id hold hid
  · intro i j r' r'' id hr' hr'' hid hid'
    rcases Arena.get_alloc_eq_some hr' with ⟨hi, rfl⟩ | hold
    · rcases Arena.get_alloc_eq_some hr'' with ⟨hj, rfl⟩ | hold'
      · exact hi.trans hj.symm
      · exact absurd hid' ((hrow id hid).2 j r'' hold')
    · rcases Arena.get_alloc_eq_some hr'' with ⟨-, rfl⟩ | hold'
      · exact absurd hid ((hrow id hid').2 i r' hold)
      · exact h.own i j r' r'' id hold hold' hid hid'

theorem Consistent.of_keeps (h : Consistent s) (hrows : Keeps s.rows rows') :
    Consistent { s with rows := rows' } :=
  ⟨h.waits, h.answered, h.once, h.owned.of_keeps hrows⟩

theorem Durable.of_keeps (h : Durable s) (hrows : Keeps s.rows rows') :
    Durable { s with rows := rows' } := by
  intro p hp happroved
  obtain ⟨r, hr, id, hid, hrow⟩ := h p hp happroved
  refine ⟨r, hr, id, hid, ?_⟩
  rw [isRowApproved_eq] at hrow ⊢
  exact hrows.approved id hrow

/-- A request that has no answer yet gets one, and its waiter goes. -/
theorem Consistent.settled (h : Consistent s) {i : Nat} {r : Request} {f : Request → Request}
    {pending : InsertionMap String Pending} (decision : ApprovalDecision)
    (hr : s.requests.get i = some r) (hopen : r.phase ≠ .settled)
    (hid : ∀ r, (f r).approvalId = r.approvalId) (hphase : (f r).phase = .settled)
    (hpending : ∀ id waiter, pending.get id = some waiter →
      s.pending.get id = some waiter ∧ waiter.request ≠ i) :
    Consistent { s with
      requests := s.requests.modify i f
      pending := pending
      settlements := (i, decision) :: s.settlements } := by
  have hself : (s.requests.modify i f).get i = some (f r) := by
    rw [Arena.get_modify_self, hr]
    rfl
  constructor
  · intro id waiter hwaiter
    obtain ⟨hbefore, hne⟩ := hpending id waiter hwaiter
    obtain ⟨r', hr', hrest⟩ := h.waits id waiter hbefore
    exact ⟨r', by rw [Arena.get_modify, if_neg hne, hr'], hrest⟩
  · intro p hp
    rcases List.mem_cons.mp hp with rfl | hp
    · exact ⟨f r, hself, hphase⟩
    · obtain ⟨r', hr', hsettled⟩ := h.answered p hp
      -- those with an answer are other requests, because this one has none
      have hne : p.1 ≠ i := by
        rintro rfl
        obtain rfl := Option.some.inj (hr.symm.trans hr')
        exact hopen hsettled
      exact ⟨r', by rw [Arena.get_modify, if_neg hne, hr'], hsettled⟩
  · rw [List.map_cons, List.nodup_cons]
    refine ⟨fun hmem => ?_, h.once⟩
    obtain ⟨p, hp, hpi⟩ := List.mem_map.mp hmem
    obtain ⟨r', hr', hsettled⟩ := h.answered p hp
    rw [hpi] at hr'
    obtain rfl := Option.some.inj (hr.symm.trans hr')
    exact hopen hsettled
  · exact h.owned.modify i hid

theorem Consistent.alloc (h : Consistent s) (r : Request)
    (hrow : ∀ id ∈ r.approvalId, (s.rows.get id).isSome ∧
      ∀ i r', s.requests.get i = some r' → r'.approvalId ≠ some id) (prompts : List Prompt) :
    Consistent { s with requests := s.requests.alloc r, prompts := prompts } := by
  constructor
  · intro id waiter hwaiter
    obtain ⟨r', hr', hrest⟩ := h.waits id waiter hwaiter
    exact ⟨r', Arena.get_alloc_of_get hr', hrest⟩
  · intro p hp
    obtain ⟨r', hr', hsettled⟩ := h.answered p hp
    exact ⟨r', Arena.get_alloc_of_get hr', hsettled⟩
  · exact h.once
  · exact h.owned.alloc r hrow

/-- A request that was sent waits under the id of its row. -/
theorem Consistent.wait (h : Consistent s) {i : Nat} {r : Request} (ref : TelegramPromptRef)
    (hr : s.requests.get i = some r) (hsending : r.phase = .sending) (hid : r.approvalId = some id)
    (habort : r.aborted = false) :
    Consistent { s with
      requests := s.requests.modify i fun r => { r with phase := .waiting }
      pending := s.pending.set id ⟨ref, i⟩ } := by
  constructor
  · intro id' waiter hwaiter
    rw [InsertionMap.get_set] at hwaiter
    split at hwaiter
    case isTrue heq =>
      obtain rfl := Option.some.inj hwaiter
      refine ⟨{ r with phase := .waiting }, ?_, hid.trans (by rw [heq]), rfl, habort⟩
      rw [Arena.get_modify_self, hr]
      rfl
    case isFalse =>
      obtain ⟨r', hr', hid', hwaiting, habort'⟩ := h.waits id' waiter hwaiter
      -- the request is still being sent, so no waiter is for it
      have hne : waiter.request ≠ i := by
        intro heq
        rw [heq] at hr'
        obtain rfl := Option.some.inj (hr.symm.trans hr')
        cases hsending.symm.trans hwaiting
      exact ⟨r', by rw [Arena.get_modify, if_neg hne, hr'], hid', hwaiting, habort'⟩
  · intro p hp
    obtain ⟨r', hr', hsettled⟩ := h.answered p hp
    have hne : p.1 ≠ i := by
      intro heq
      rw [heq] at hr'
      obtain rfl := Option.some.inj (hr.symm.trans hr')
      cases hsending.symm.trans hsettled
    exact ⟨r', by rw [Arena.get_modify, if_neg hne, hr'], hsettled⟩
  · exact h.once
  · exact h.owned.modify i fun _ => rfl

/-- A request that is not waiting has no waiter. -/
theorem Consistent.request_ne (h : Consistent s) {i : Nat} {r : Request} {waiter : Pending}
    (hr : s.requests.get i = some r) (hphase : r.phase ≠ .waiting)
    (hwaiter : s.pending.get id = some waiter) : waiter.request ≠ i := by
  intro heq
  obtain ⟨r', hr', -, hwaiting, -⟩ := h.waits id waiter hwaiter
  rw [heq] at hr'
  obtain rfl := Option.some.inj (hr.symm.trans hr')
  exact hphase hwaiting

/-- A deletion under the id of a request leaves the waiters of the others. -/
theorem Consistent.delete_own (h : Consistent s) {i : Nat} {r : Request}
    (hr : s.requests.get i = some r) (hid : r.approvalId = some id) (id' : String)
    (waiter : Pending) (hwaiter : (s.pending.delete id).get id' = some waiter) :
    s.pending.get id' = some waiter ∧ waiter.request ≠ i := by
  obtain ⟨hne, hbefore⟩ := InsertionMap.get_of_get_delete hwaiter
  refine ⟨hbefore, fun heq => ?_⟩
  -- the waiter of this request is the deleted one
  obtain ⟨r', hr', hid', -, -⟩ := h.waits id' waiter hbefore
  rw [heq] at hr'
  obtain rfl := Option.some.inj (hr.symm.trans hr')
  exact hne (Option.some.inj (hid'.symm.trans hid))

theorem Consistent.answer (h : Consistent s) {i : Nat} {r : Request} (decision : ApprovalDecision)
    (hr : s.requests.get i = some r) (hsending : r.phase = .sending) :
    Consistent (s.answer i decision) := by
  refine h.settled decision hr (by simp [hsending]) (fun _ => rfl) rfl fun id waiter hwaiter => ?_
  exact ⟨hwaiter, h.request_ne hr (by simp [hsending]) hwaiter⟩

theorem settle_of_open {i : Nat} {r : Request} (decision : ApprovalDecision)
    (hr : s.requests.get i = some r) (hopen : r.phase ≠ .settled) :
    s.settle i id decision = { s with pending := s.pending.delete id }.answer i decision := by
  rw [State.settle, hr]
  exact if_neg hopen

theorem Consistent.settle (h : Consistent s) {i : Nat} {r : Request} (decision : ApprovalDecision)
    (hr : s.requests.get i = some r) (hid : r.approvalId = some id) :
    Consistent (s.settle i id decision) := by
  by_cases hopen : r.phase = .settled
  · rw [State.settle, hr]
    dsimp only
    rwa [if_pos hopen]
  · rw [settle_of_open decision hr hopen]
    exact h.settled decision hr hopen (fun _ => rfl) rfl (h.delete_own hr hid)

/-- The signal of a request without a waiter fires. -/
theorem Consistent.fire (h : Consistent s) {i : Nat}
    (hnone : ∀ id waiter, s.pending.get id = some waiter → waiter.request ≠ i) :
    Consistent { s with requests := s.requests.modify i fun r => { r with aborted := true } } := by
  constructor
  · intro id waiter hwaiter
    obtain ⟨r', hr', hrest⟩ := h.waits id waiter hwaiter
    have hne : waiter.request ≠ i := hnone id waiter hwaiter
    exact ⟨r', by rw [Arena.get_modify, if_neg hne, hr'], hrest⟩
  · intro p hp
    obtain ⟨r', hr', hsettled⟩ := h.answered p hp
    by_cases heq : p.1 = i
    · exact ⟨{ r' with aborted := true }, by rw [Arena.get_modify, if_pos heq, hr']; rfl, hsettled⟩
    · exact ⟨r', by rw [Arena.get_modify, if_neg heq, hr'], hsettled⟩
  · exact h.once
  · exact h.owned.modify i fun _ => rfl

/-! ## The steps of the channel -/

theorem Consistent.start (h : Consistent s) (req : ApprovalRequest) (aborted : Bool)
    (io : CreateIo) : Consistent (s.start options req aborted io) := by
  unfold State.start
  dsimp only
  split_ifs
  · exact (h.alloc ⟨req, none, true, .sending⟩ (fun _ hid => nomatch hid) s.prompts).answer _
      (Arena.get_alloc_next _ _) rfl
  · split
    case h_1 rows' hcreate =>
      have hkeeps : Keeps s.rows (create s.rows ⟨.mcp_gate, req.payload, req.summary⟩ io).1 :=
        keeps_create _ io
      rw [hcreate] at hkeeps
      exact ((h.of_keeps hkeeps).alloc ⟨req, none, false, .sending⟩ (fun _ hid => nomatch hid)
        s.prompts).answer _ (Arena.get_alloc_next _ _) rfl
    case h_2 rows' approvalId hcreate =>
      obtain ⟨hnone, hsome, hkeeps⟩ := create_eq_some hcreate
      refine (h.of_keeps hkeeps).alloc ⟨req, some approvalId, false, .sending⟩ ?_ _
      intro id hid
      obtain rfl := Option.mem_some_iff.mp hid
      refine ⟨hsome, fun i r' hr' hid' => ?_⟩
      -- a request that named the id would have had a row of that id
      have hbefore := h.owned.written i r' approvalId hr' hid'
      rw [hnone] at hbefore
      cases hbefore

theorem Consistent.sent (h : Consistent s) {i : Nat} {req : ApprovalRequest} {aborted : Bool}
    (ref : Option TelegramPromptRef)
    (hr : s.requests.get i = some ⟨req, some id, aborted, .sending⟩) :
    Consistent (s.sent options i aborted id ref) := by
  cases ref with
  | none => exact h.answer _ hr rfl
  | some ref =>
      rw [State.sent]
      split
      case isTrue => exact h.settle _ hr rfl
      case isFalse habort => exact h.wait ref hr rfl rfl (Bool.eq_false_of_not_eq_true habort)

/-- What a click that reaches a waiter has found. -/
theorem reached_eq_some {evt : TelegramDecisionEvent} {verdict : Verdict} {waiter : Pending}
    (h : s.reached options evt = some (verdict, id, waiter)) :
    s.pending.get id = some waiter := by
  unfold State.reached at h
  split at h
  case isTrue => cases h
  case isFalse =>
    obtain ⟨parsed, -, hparsed⟩ := Option.bind_eq_some_iff.mp h
    obtain ⟨found, hfound, heq⟩ := Option.map_eq_some_iff.mp hparsed
    obtain ⟨-, rfl, rfl⟩ := heq
    exact hfound

theorem Consistent.resolve (h : Consistent s) {waiter : Pending} (verdict : Verdict)
    (evt : TelegramDecisionEvent) (io : DecideIo) (finalizeThrows : Bool)
    (hwaiter : s.pending.get id = some waiter) :
    Consistent (s.resolve options waiter id verdict evt io finalizeThrows) := by
  obtain ⟨r, hr, hid, -, -⟩ := h.waits id waiter hwaiter
  have hkeeps : Keeps s.rows (decide s.rows id verdict none io).1 := keeps_decide verdict none io
  have hrows := h.of_keeps hkeeps
  unfold State.resolve
  split
  case h_1 rows' hdecide =>
    rw [hdecide] at hrows
    exact hrows.settle _ hr hid
  case h_2 rows' found hdecide =>
    rw [hdecide] at hrows
    have hfinalized : ∀ finalized : List Finalization,
        Consistent { s with rows := rows', finalized := finalized } := fun _ =>
      ⟨hrows.waits, hrows.answered, hrows.once, hrows.owned⟩
    dsimp only
    split
    case isTrue => exact hfinalized _
    case isFalse => exact (hfinalized _).settle _ hr hid

theorem Consistent.routeDecision (h : Consistent s) (evt : TelegramDecisionEvent) (io : DecideIo)
    (finalizeThrows : Bool) : Consistent (s.routeDecision options evt io finalizeThrows) := by
  unfold State.routeDecision
  split
  case h_1 => exact h
  case h_2 verdict id waiter hreached =>
    exact h.resolve verdict evt io finalizeThrows (reached_eq_some hreached)

theorem Consistent.abort (h : Consistent s) {i : Nat} {r : Request}
    (hr : s.requests.get i = some r) : Consistent (s.abort options i r) := by
  unfold State.abort
  dsimp only
  split
  case h_1 approvalId hwaiting hid =>
    have hfired : (s.requests.modify i fun r => { r with aborted := true }).get i =
        some { r with aborted := true } := by
      rw [Arena.get_modify_self, hr]
      rfl
    have hopen : r.phase ≠ .settled := by simp [hwaiting]
    rw [settle_of_open (r := { r with aborted := true }) _ hfired hopen, State.answer]
    dsimp only
    rw [Arena.modify_modify]
    exact h.settled _ hr hopen (fun _ => rfl) rfl (h.delete_own hr hid)
  case h_2 hno =>
    refine h.fire fun id waiter hwaiter heq => ?_
    obtain ⟨r', hr', hid, hwaiting, -⟩ := h.waits id waiter hwaiter
    rw [heq] at hr'
    obtain rfl := Option.some.inj (hr.symm.trans hr')
    exact hno id hwaiting hid

theorem consistent_step {a : Action} (h : Consistent s) (hs : step options s a = some s') :
    Consistent s' := by
  cases a with
  | request req aborted io =>
      obtain rfl := Option.some.inj hs
      exact h.start req aborted io
  | sent request ref =>
      dsimp only [step] at hs
      split at hs
      case h_2 => cases hs
      case h_1 hr =>
        obtain rfl := Option.some.inj hs
        exact h.sent ref hr
  | abort request =>
      obtain ⟨r, hr, rfl⟩ := Option.map_eq_some_iff.mp hs
      exact h.abort hr
  | click evt io finalizeThrows =>
      obtain rfl := Option.some.inj hs
      exact h.routeDecision evt io finalizeThrows
  | create input io =>
      obtain rfl := Option.some.inj hs
      exact h.of_keeps (keeps_create input io)
  | decide id status note io =>
      obtain rfl := Option.some.inj hs
      exact h.of_keeps (keeps_decide status note io)
  | stop =>
      obtain rfl := Option.some.inj hs
      refine ⟨fun id waiter hwaiter => ?_, h.answered, h.once, h.owned⟩
      cases hwaiter

/-! ## Clicks after an abort -/

theorem rows_settle (i : Nat) (id : String) (decision : ApprovalDecision) :
    (s.settle i id decision).rows = s.rows := by
  unfold State.settle
  split
  case h_1 => rfl
  case h_2 => split <;> rfl

/-- A click decides at most the row of the waiter that it reaches. -/
theorem rows_resolve (waiter : Pending) (id : String) (verdict : Verdict)
    (evt : TelegramDecisionEvent) (io : DecideIo) (finalizeThrows : Bool) :
    (s.resolve options waiter id verdict evt io finalizeThrows).rows =
      (decide s.rows id verdict none io).1 := by
  unfold State.resolve
  split
  case h_1 hdecide => rw [rows_settle, hdecide]
  case h_2 hdecide =>
    dsimp only
    split
    case isTrue => rw [hdecide]
    case isFalse => rw [rows_settle, hdecide]

/-- A request whose signal has fired has no waiter, so no click decides its row. -/
theorem Consistent.click_after_abort (h : Consistent s) {i : Nat} {r : Request}
    (hr : s.requests.get i = some r) (habort : r.aborted = true) (hid : r.approvalId = some id)
    (evt : TelegramDecisionEvent) (io : DecideIo) (finalizeThrows : Bool) :
    (s.routeDecision options evt io finalizeThrows).rows.get id = s.rows.get id := by
  unfold State.routeDecision
  split
  case h_1 => rfl
  case h_2 verdict id' waiter hreached =>
    obtain ⟨r', hr', hid', -, hlive⟩ := h.waits id' waiter (reached_eq_some hreached)
    have hne : id ≠ id' := by
      rintro rfl
      have hsame : i = waiter.request := h.owned.own i waiter.request r r' id hr hr' hid hid'
      rw [hsame, hr'] at hr
      obtain rfl := Option.some.inj hr
      cases habort.symm.trans hlive
    rw [rows_resolve, get_decide_of_ne verdict none io hne]

/-! ## Approvals -/

/-- An approve click that is answered meets a row that nobody has rejected. -/
def Confirms (options : TelegramMeldekanalOptions) (s : State) : Action → Prop
  | .click evt io false =>
      match s.reached options evt with
      | some (.approved, id, _) => Undenied io (status s.rows id)
      | _ => True
  | _ => True

instance (options : TelegramMeldekanalOptions) (s : State) (a : Action) :
    Decidable (Confirms options s a) := by
  unfold Confirms
  split
  · split <;> infer_instance
  · infer_instance

theorem Durable.modify (h : Durable s) (i : Nat) {f : Request → Request}
    (hf : ∀ r, (f r).approvalId = r.approvalId) :
    Durable { s with requests := s.requests.modify i f } := by
  intro p hp happroved
  obtain ⟨r, hr, id, hid, hrow⟩ := h p hp happroved
  by_cases heq : p.1 = i
  · refine ⟨f r, ?_, id, (hf r).trans hid, hrow⟩
    dsimp only
    rw [Arena.get_modify, if_pos heq, Option.mem_def.mp hr]
    rfl
  · refine ⟨r, ?_, id, hid, hrow⟩
    dsimp only
    rwa [Arena.get_modify, if_neg heq]

theorem Durable.alloc (h : Durable s) (r : Request) :
    Durable { s with requests := s.requests.alloc r } := by
  intro p hp happroved
  obtain ⟨r', hr', id, hid, hrow⟩ := h p hp happroved
  exact ⟨r', Arena.get_alloc_of_get hr', id, hid, hrow⟩

/-- An answer that is an approval needs an approved row. -/
theorem Durable.answer (h : Durable s) {i : Nat} {decision : ApprovalDecision}
    (hdecision : decision.outcome = .approved → ∃ r ∈ s.requests.get i, ∃ id ∈ r.approvalId,
      isRowApproved s.rows id = true) : Durable (s.answer i decision) := by
  intro p hp happroved
  rcases List.mem_cons.mp hp with rfl | hp
  · obtain ⟨r, hr, id, hid, hrow⟩ := hdecision happroved
    refine ⟨{ r with phase := .settled }, ?_, id, hid, hrow⟩
    rw [State.answer, Arena.get_modify_self, Option.mem_def.mp hr]
    rfl
  · exact h.modify i (f := fun r => { r with phase := .settled }) (fun _ => rfl) p hp happroved

theorem Durable.settle (h : Durable s) {i : Nat} {decision : ApprovalDecision}
    (hdecision : decision.outcome = .approved → ∃ r ∈ s.requests.get i, ∃ id ∈ r.approvalId,
      isRowApproved s.rows id = true) : Durable (s.settle i id decision) := by
  have hdeleted : Durable { s with pending := s.pending.delete id } := h
  unfold State.settle
  split
  case h_1 => exact h
  case h_2 =>
    split
    case isTrue => exact h
    case isFalse => exact hdeleted.answer hdecision

theorem Durable.start (h : Durable s) (req : ApprovalRequest) (aborted : Bool) (io : CreateIo) :
    Durable (s.start options req aborted io) := by
  have hkeeps : Keeps s.rows (create s.rows ⟨.mcp_gate, req.payload, req.summary⟩ io).1 :=
    keeps_create _ io
  unfold State.start
  dsimp only
  split_ifs
  · exact (h.alloc _).answer fun happroved => nomatch happroved
  · split
    case h_1 hcreate =>
      rw [hcreate] at hkeeps
      exact ((h.of_keeps hkeeps).alloc _).answer fun happroved => nomatch happroved
    case h_2 hcreate =>
      rw [hcreate] at hkeeps
      exact (h.of_keeps hkeeps).alloc _

theorem Durable.routeDecision (hdurable : Durable s) (h : Consistent s)
    {evt : TelegramDecisionEvent} {io : DecideIo} {finalizeThrows : Bool}
    (hC : Confirms options s (.click evt io finalizeThrows)) :
    Durable (s.routeDecision options evt io finalizeThrows) := by
  unfold State.routeDecision
  split
  case h_1 => exact hdurable
  case h_2 verdict id waiter hreached =>
    obtain ⟨r, hr, hid, -, -⟩ := h.waits id waiter (reached_eq_some hreached)
    have hkeeps : Keeps s.rows (decide s.rows id verdict none io).1 :=
      keeps_decide verdict none io
    have hrows := hdurable.of_keeps hkeeps
    unfold State.resolve
    split
    case h_1 rows' hdecide =>
      rw [hdecide] at hrows
      exact hrows.settle fun happroved => nomatch happroved
    case h_2 rows' found hdecide =>
      rw [hdecide] at hrows
      dsimp only
      -- without the finalization the decision is not told to the request
      cases finalizeThrows with
      | true => exact hrows
      | false =>
          have hfinalized : ∀ finalized : List Finalization,
              Durable { s with rows := rows', finalized := finalized } := fun _ => hrows
          rw [if_neg Bool.false_ne_true]
          refine (hfinalized _).settle fun happroved => ⟨r, hr, id, hid, ?_⟩
          cases verdict with
          | rejected => cases happroved
          | approved =>
              -- the click is over a row that was not denied before
              have hundenied : Undenied io (status s.rows id) := by
                simpa [Confirms, hreached] using hC
              have hrow : (s.rows.get id).isSome := h.owned.written _ r id hr hid
              exact isRowApproved_eq.mpr (status_decide_approved hrow hundenied hdecide)

theorem durable_step {a : Action} (hdurable : Durable s) (h : Consistent s)
    (hC : Confirms options s a) (hs : step options s a = some s') : Durable s' := by
  cases a with
  | request req aborted io =>
      obtain rfl := Option.some.inj hs
      exact hdurable.start req aborted io
  | sent request ref =>
      dsimp only [step] at hs
      split at hs
      case h_2 => cases hs
      case h_1 approvalId aborted hr =>
        obtain rfl := Option.some.inj hs
        -- a message that could not be sent is answered as a rejection
        cases ref with
        | none => exact hdurable.answer fun happroved => nomatch happroved
        | some ref =>
            rw [State.sent]
            split
            case isTrue => exact hdurable.settle fun happroved => nomatch happroved
            case isFalse => exact hdurable.modify request fun _ => rfl
  | abort request =>
      obtain ⟨r, hr, rfl⟩ := Option.map_eq_some_iff.mp hs
      have hfired := hdurable.modify request (f := fun r => { r with aborted := true })
        fun _ => rfl
      unfold State.abort
      dsimp only
      split
      case h_1 => exact hfired.settle fun happroved => nomatch happroved
      case h_2 => exact hfired
  | click evt io finalizeThrows =>
      obtain rfl := Option.some.inj hs
      -- only a click approves, and only here the condition is needed
      exact hdurable.routeDecision h hC
  | create input io =>
      obtain rfl := Option.some.inj hs
      exact hdurable.of_keeps (keeps_create input io)
  | decide id status note io =>
      obtain rfl := Option.some.inj hs
      exact hdurable.of_keeps (keeps_decide status note io)
  | stop =>
      obtain rfl := Option.some.inj hs
      exact hdurable

/-! ## Every run -/

/-- An approval has an approved row, no request is answered twice, and no click changes the row of a
request whose signal has fired. -/
structure ApprovalSafe (options : TelegramMeldekanalOptions) (s : State) : Prop where
  durable : Durable s
  once : (s.settlements.map Prod.fst).Nodup
  invalidated : ∀ i r id, s.requests.get i = some r → r.aborted = true → r.approvalId = some id →
    ∀ evt io finalizeThrows s', step options s (.click evt io finalizeThrows) = some s' →
      s'.rows.get id = s.rows.get id

theorem reachable_consistent {rows : Approvals}
    (h : (telegramMeldekanal options rows).Reachable s) : Consistent s := by
  have hinit : Consistent (telegramMeldekanal options rows).init := by
    refine ⟨fun id waiter hwaiter => ?_, fun p hp => ?_, List.nodup_nil, ⟨?_, ?_⟩⟩
    · cases hwaiter
    · cases hp
    · intro i r id hr
      cases hr
    · intro i j r r' id hr
      cases hr
  exact h.invariant hinit fun _ _ _ hconsistent hs => consistent_step hconsistent hs

/-- In a run in which every approve click that is answered meets a row that nobody has rejected,
the approvals agree with the table. -/
theorem approval_durable {rows : Approvals}
    (h : (telegramMeldekanal options rows).ReachableUnder (Confirms options) s) :
    ApprovalSafe options s := by
  have hconsistent : Consistent s := reachable_consistent h.reachable
  have hinit : Durable (telegramMeldekanal options rows).init := fun p hp => by cases hp
  have hdurable : Durable s :=
    h.invariant_with (fun _ => reachable_consistent) hinit
      fun _ _ _ hconsistent hdurable hC hs => durable_step hdurable hconsistent hC hs
  refine ⟨hdurable, hconsistent.once, ?_⟩
  intro i r id hr habort hid evt io finalizeThrows s' hs
  obtain rfl := Option.some.inj hs
  exact hconsistent.click_after_abort hr habort hid evt io finalizeThrows

/-! A request whose row another caller, or another process, rejects. -/

def sampleOptions : TelegramMeldekanalOptions := { chatId := "42" }

def sampleRequest : ApprovalRequest :=
  ⟨"r1", "unifi", "block_client", .gate, "spiffe://thinklocal/node/a", "block it"⟩

def approveClick : TelegramDecisionEvent :=
  ⟨buildCallbackData .approved "a1", "q1", "42", 7⟩

def quietIo : DecideIo := ⟨5, none, none⟩

/-- The request until it waits for a click. -/
def waiting : List Action :=
  [.request sampleRequest false ⟨"a1", 1, false⟩, .sent 0 (some ⟨"42", 7⟩)]

/-- A foreign click, a click, a second one, and a second request that is aborted before a click. -/
def confirmedRun : List Action :=
  waiting ++ [.click ⟨buildCallbackData .approved "a1", "q0", "43", 7⟩ quietIo false,
    .click approveClick quietIo false, .click approveClick quietIo false,
    .decide "a1" .rejected none quietIo, .request sampleRequest false ⟨"a2", 6, false⟩,
    .abort 1, .sent 1 (some ⟨"42", 8⟩),
    .click ⟨buildCallbackData .approved "a2", "q2", "42", 8⟩ quietIo false]

/-- The outcomes in the order of the answers, and the statuses of the rows. -/
def State.summary (s : State) : List (Nat × ApprovalOutcome) × List (String × ApprovalStatus) :=
  (s.settlements.reverse.map fun p => (p.1, p.2.outcome),
    s.rows.entries.map fun p => (p.1, p.2.status))

theorem approval_durable_confirmed : ∃ s,
    (telegramMeldekanal sampleOptions .empty).runFrom (telegramMeldekanal sampleOptions .empty).init
      confirmedRun = some s ∧
    s.summary = ([(0, .approved), (1, .timeout)], [("a1", .approved), ("a2", .pending)]) ∧
    ApprovalSafe sampleOptions s := by
  have hrun : ((telegramMeldekanal sampleOptions .empty).runFrom
      (telegramMeldekanal sampleOptions .empty).init confirmedRun).map State.summary =
      some ([(0, .approved), (1, .timeout)], [("a1", .approved), ("a2", .pending)]) := by
    decide +kernel
  obtain ⟨s, hs, hsummary⟩ := Option.map_eq_some_iff.mp hrun
  have hmeets : (telegramMeldekanal sampleOptions .empty).Meets (Confirms sampleOptions)
      (telegramMeldekanal sampleOptions .empty).init confirmedRun := by
    decide +kernel
  exact ⟨s, hs, hsummary, approval_durable (Machine.ReachableUnder.init.runFrom hmeets hs)⟩

/-- Another caller rejects the row before the click. -/
def rejectedBefore : List Action :=
  waiting ++ [.decide "a1" .rejected none quietIo, .click approveClick quietIo false]

/-- Another process rejects the row between the `SELECT` and the `UPDATE` of the click. -/
def rejectedBetween : List Action :=
  waiting ++ [.click approveClick ⟨5, none, some ⟨.rejected, 5, none⟩⟩ false]

theorem exists_approved_of_summary (h : Durable s) {i : Nat} (hi : (i, .approved) ∈ s.summary.1) :
    ∃ id, (id, .approved) ∈ s.summary.2 := by
  obtain ⟨p, hp, heq⟩ := List.mem_map.mp hi
  obtain ⟨r, -, id, -, hrow⟩ := h p (List.mem_reverse.mp hp) (Prod.mk.inj heq).2
  obtain ⟨row, hrow, happroved⟩ := Option.map_eq_some_iff.mp (isRowApproved_eq.mp hrow)
  exact ⟨id, List.mem_map.mpr ⟨(id, row), InsertionMap.get_eq_some_iff.mp hrow, by rw [happroved]⟩⟩

/-- The request is answered as approved and its row is rejected. -/
theorem approved_and_rejected :
    (∃ s, (telegramMeldekanal sampleOptions .empty).runFrom
        (telegramMeldekanal sampleOptions .empty).init rejectedBefore = some s ∧
        ¬ ApprovalSafe sampleOptions s) ∧
      ∃ s, (telegramMeldekanal sampleOptions .empty).runFrom
        (telegramMeldekanal sampleOptions .empty).init rejectedBetween = some s ∧
        ¬ ApprovalSafe sampleOptions s := by
  have hunsafe : ∀ s : State, s.summary = ([(0, .approved)], [("a1", .rejected)]) →
      ¬ ApprovalSafe sampleOptions s := by
    intro s hsummary hsafe
    obtain ⟨id, hid⟩ := exists_approved_of_summary (i := 0) hsafe.durable (by simp [hsummary])
    simp [hsummary] at hid
  constructor
  · have hrun : ((telegramMeldekanal sampleOptions .empty).runFrom
        (telegramMeldekanal sampleOptions .empty).init rejectedBefore).map State.summary =
        some ([(0, .approved)], [("a1", .rejected)]) := by decide +kernel
    obtain ⟨s, hs, hsummary⟩ := Option.map_eq_some_iff.mp hrun
    exact ⟨s, hs, hunsafe s hsummary⟩
  · have hrun : ((telegramMeldekanal sampleOptions .empty).runFrom
        (telegramMeldekanal sampleOptions .empty).init rejectedBetween).map State.summary =
        some ([(0, .approved)], [("a1", .rejected)]) := by decide +kernel
    obtain ⟨s, hs, hsummary⟩ := Option.map_eq_some_iff.mp hrun
    exact ⟨s, hs, hunsafe s hsummary⟩

end ThinkLocal.Approval
