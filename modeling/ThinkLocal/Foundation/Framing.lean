import Mathlib.Tactic

/-!
# Frames with a length in front

A frame is a header of a fixed size that gives the length, and the payload.  A reader gets the stream
in pieces of any size: at each point some frames are complete, and the rest is a cut of the next one.
The frames are handed one by one to a handler that may stop the reading.
-/

namespace Foundation

structure Framing (α : Type*) where
  headerSize : Nat
  /-- The lengths below it have a header. -/
  bound : Nat
  header : Nat → List α
  /-- The length that a header gives. -/
  lengthOf : List α → Nat
  headerSize_pos : 0 < headerSize
  length_header : ∀ n, (header n).length = headerSize
  lengthOf_append : ∀ n < bound, ∀ rest, lengthOf (header n ++ rest) = n

namespace Framing

variable {α σ : Type*} (F : Framing α)

/-- What a reader with a limit finds at the start of its bytes. -/
inductive Next (α : Type*)
  | incomplete
  | refused
  | frame (payload rest : List α)

def next (limit : Nat) (bytes : List α) : Next α :=
  if bytes.length < F.headerSize then .incomplete
  else if limit < F.lengthOf bytes then .refused
  else if bytes.length < F.headerSize + F.lengthOf bytes then .incomplete
  else .frame ((bytes.drop F.headerSize).take (F.lengthOf bytes))
    (bytes.drop (F.headerSize + F.lengthOf bytes))

def encode (payload : List α) : List α := F.header payload.length ++ payload

def encodeAll (payloads : List (List α)) : List α := payloads.flatMap F.encode

/-- A payload that can be written, and is read by a reader with the limit. -/
def Fits (limit : Nat) (payload : List α) : Prop := payload.length ≤ limit ∧ payload.length < F.bound

variable {F} {limit n : Nat} {payload bytes rest : List α} {payloads : List (List α)}

@[simp] theorem length_encode (payload : List α) :
    (F.encode payload).length = F.headerSize + payload.length := by
  rw [encode, List.length_append, F.length_header]

@[simp] theorem encodeAll_nil : F.encodeAll [] = [] := rfl

@[simp] theorem encodeAll_cons (payload : List α) (payloads : List (List α)) :
    F.encodeAll (payload :: payloads) = F.encode payload ++ F.encodeAll payloads := rfl

@[simp] theorem encodeAll_append (first second : List (List α)) :
    F.encodeAll (first ++ second) = F.encodeAll first ++ F.encodeAll second :=
  List.flatMap_append

/-! ## Reading one frame -/

theorem next_encode (h : F.Fits limit payload) (rest : List α) :
    F.next limit (F.encode payload ++ rest) = .frame payload rest := by
  have hlength : F.lengthOf (F.encode payload ++ rest) = payload.length := by
    rw [encode, List.append_assoc]
    exact F.lengthOf_append _ h.2 _
  have hheader := F.length_header payload.length
  have hdrop : (F.encode payload ++ rest).drop F.headerSize = payload ++ rest := by
    rw [encode, List.append_assoc, ← hheader, List.drop_left]
  have hsize : (F.encode payload ++ rest).length = F.headerSize + payload.length + rest.length := by
    rw [List.length_append, length_encode]
  rw [next, hlength, hsize, if_neg (by omega), if_neg (not_lt.mpr h.1), if_neg (by omega), hdrop,
    List.take_left, ← List.drop_drop, hdrop, List.drop_left]

/-- Frames can be told apart. -/
theorem encodeAll_injective {payloads payloads' : List (List α)}
    (h : ∀ payload ∈ payloads, payload.length < F.bound)
    (h' : ∀ payload ∈ payloads', payload.length < F.bound)
    (heq : F.encodeAll payloads = F.encodeAll payloads') : payloads = payloads' := by
  induction payloads generalizing payloads' with
  | nil =>
      cases payloads' with
      | nil => rfl
      | cons payload' payloads' =>
          have hlength := congrArg List.length heq
          have hpos := F.headerSize_pos
          simp only [encodeAll_nil, encodeAll_cons, List.length_nil, List.length_append,
            length_encode] at hlength
          omega
  | cons payload payloads ih =>
      cases payloads' with
      | nil =>
          have hlength := congrArg List.length heq
          have hpos := F.headerSize_pos
          simp only [encodeAll_nil, encodeAll_cons, List.length_nil, List.length_append,
            length_encode] at hlength
          omega
      | cons payload' payloads' =>
          -- a reader with a limit above both finds the same first frame
          have hfits : F.Fits (payload.length + payload'.length) payload :=
            ⟨Nat.le_add_right _ _, h payload List.mem_cons_self⟩
          have hfits' : F.Fits (payload.length + payload'.length) payload' :=
            ⟨Nat.le_add_left _ _, h' payload' List.mem_cons_self⟩
          have hnext := next_encode hfits (F.encodeAll payloads)
          have hnext' := next_encode hfits' (F.encodeAll payloads')
          rw [encodeAll_cons, encodeAll_cons] at heq
          rw [heq, hnext'] at hnext
          obtain ⟨rfl, hrest⟩ := Next.frame.inj hnext
          rw [ih (fun p hp => h p (List.mem_cons_of_mem _ hp))
            (fun p hp => h' p (List.mem_cons_of_mem _ hp)) hrest.symm]

/-- A frame that is cut off is not read. -/
theorem next_take (h : F.Fits limit payload) (hn : n < (F.encode payload).length) :
    F.next limit ((F.encode payload).take n) = .incomplete := by
  rw [length_encode] at hn
  have htake : ((F.encode payload).take n).length = n := by
    rw [List.length_take, length_encode]
    omega
  rw [next, htake]
  by_cases hshort : n < F.headerSize
  · rw [if_pos hshort]
  · -- the header is there, and gives the length of the payload
    have hheader := F.length_header payload.length
    have hsplit : (F.encode payload).take n =
        F.header payload.length ++ payload.take (n - F.headerSize) := by
      rw [encode, List.take_append, hheader, List.take_of_length_le (by omega)]
    rw [if_neg hshort, hsplit, F.lengthOf_append _ h.2, if_neg (not_lt.mpr h.1), if_pos hn]

/-! ## Reading a stream -/

variable (F)

/-- The number of payloads whose frames are complete in the first `n` bytes. -/
def complete : List (List α) → Nat → Nat
  | [], _ => 0
  | payload :: payloads, n =>
      if (F.encode payload).length ≤ n then complete payloads (n - (F.encode payload).length) + 1
      else 0

/-- What the first `n` bytes hold of the next frame. -/
def cut : List (List α) → Nat → List α
  | [], _ => []
  | payload :: payloads, n =>
      if (F.encode payload).length ≤ n then cut payloads (n - (F.encode payload).length)
      else (F.encode payload).take n

/-- The payloads that become complete between two points. -/
def between (payloads : List (List α)) (n m : Nat) : List (List α) :=
  (payloads.take (F.complete payloads m)).drop (F.complete payloads n)

variable {F}

theorem take_encodeAll (payloads : List (List α)) (n : Nat) :
    (F.encodeAll payloads).take n =
      F.encodeAll (payloads.take (F.complete payloads n)) ++ F.cut payloads n := by
  induction payloads generalizing n with
  | nil => simp [complete, cut]
  | cons payload payloads ih =>
      rw [complete, cut, encodeAll_cons]
      split_ifs with hfit
      · rw [List.take_append, List.take_of_length_le hfit, ih, List.take_succ_cons, encodeAll_cons,
          List.append_assoc]
      · rw [List.take_append_of_le_length (not_le.mp hfit).le]
        simp

theorem next_cut (h : ∀ payload ∈ payloads, F.Fits limit payload) (n : Nat) :
    F.next limit (F.cut payloads n) = .incomplete := by
  induction payloads generalizing n with
  | nil => exact if_pos F.headerSize_pos
  | cons payload payloads ih =>
      rw [cut]
      split_ifs with hfit
      · exact ih (fun p hp => h p (List.mem_cons_of_mem _ hp)) _
      · exact next_take (h payload List.mem_cons_self) (not_le.mp hfit)

theorem length_cut_lt (h : ∀ payload ∈ payloads, payload.length ≤ limit) (n : Nat) :
    (F.cut payloads n).length < F.headerSize + limit := by
  induction payloads generalizing n with
  | nil =>
      have hpos := F.headerSize_pos
      simp only [cut, List.length_nil]
      omega
  | cons payload payloads ih =>
      rw [cut]
      split_ifs with hfit
      · exact ih (fun p hp => h p (List.mem_cons_of_mem _ hp)) _
      · have hle := h payload List.mem_cons_self
        rw [length_encode] at hfit
        rw [List.length_take, length_encode]
        omega

theorem complete_zero (payloads : List (List α)) : F.complete payloads 0 = 0 := by
  cases payloads with
  | nil => rfl
  | cons payload payloads =>
      have hpos := F.headerSize_pos
      rw [complete, if_neg (by rw [length_encode]; omega)]

theorem cut_zero (payloads : List (List α)) : F.cut payloads 0 = [] := by
  cases payloads with
  | nil => rfl
  | cons payload payloads =>
      have hpos := F.headerSize_pos
      rw [cut, if_neg (by rw [length_encode]; omega), List.take_zero]

theorem complete_le_length (payloads : List (List α)) (n : Nat) :
    F.complete payloads n ≤ payloads.length := by
  induction payloads generalizing n with
  | nil => exact le_rfl
  | cons payload payloads ih =>
      rw [complete, List.length_cons]
      split_ifs
      · exact Nat.succ_le_succ (ih _)
      · exact Nat.zero_le _

/-- The first `k` payloads are complete exactly if their frames fit into the bytes. -/
theorem le_complete_iff {k : Nat} (hk : k ≤ payloads.length) :
    k ≤ F.complete payloads n ↔ (F.encodeAll (payloads.take k)).length ≤ n := by
  induction payloads generalizing n k with
  | nil =>
      obtain rfl : k = 0 := Nat.le_zero.mp hk
      simp
  | cons payload payloads ih =>
      cases k with
      | zero => simp
      | succ k =>
          have ih' := ih (n := n - (F.encode payload).length) (Nat.succ_le_succ_iff.mp hk)
          rw [complete, List.take_succ_cons, encodeAll_cons, List.length_append]
          split_ifs with hfit
          · rw [Nat.succ_le_succ_iff, ih']
            omega
          · omega

theorem complete_mono {m : Nat} (hnm : n ≤ m) : F.complete payloads n ≤ F.complete payloads m := by
  have hle := complete_le_length (F := F) payloads n
  exact (le_complete_iff hle).mpr (((le_complete_iff hle).mp le_rfl).trans hnm)

/-- The whole stream completes all frames. -/
theorem complete_length (payloads : List (List α)) :
    F.complete payloads (F.encodeAll payloads).length = payloads.length := by
  refine le_antisymm (complete_le_length _ _) ((le_complete_iff le_rfl).mpr ?_)
  rw [List.take_length]

theorem take_append_between {m : Nat} (hnm : n ≤ m) :
    payloads.take (F.complete payloads n) ++ F.between payloads n m =
      payloads.take (F.complete payloads m) := by
  have hmono : F.complete payloads n ≤ F.complete payloads m := complete_mono hnm
  have htake : payloads.take (F.complete payloads n) =
      (payloads.take (F.complete payloads m)).take (F.complete payloads n) := by
    rw [List.take_take, min_eq_left hmono]
  rw [between, htake, List.take_append_drop]

variable {before : List (List α)}

/-- A frame that ends between two points is among the complete ones there. -/
theorem between_of_ends (after : List (List α)) {m : Nat} (hn : n < (F.encodeAll (before ++ [payload])).length)
    (hm : (F.encodeAll (before ++ [payload])).length ≤ m) :
    F.complete (before ++ payload :: after) n ≤ before.length ∧
      F.between (before ++ payload :: after) n m =
        before.drop (F.complete (before ++ payload :: after) n) ++ payload ::
          after.take (F.complete (before ++ payload :: after) m - (before.length + 1)) := by
  have hk : before.length + 1 ≤ (before ++ payload :: after).length := by
    rw [List.length_append, List.length_cons]
    omega
  have htake : (before ++ payload :: after).take (before.length + 1) = before ++ [payload] := by
    rw [List.take_append, List.take_of_length_le (Nat.le_succ _), Nat.add_sub_cancel_left,
      List.take_succ_cons, List.take_zero]
  -- the frame ends behind the first point, so it is not complete there
  have hbefore : F.complete (before ++ payload :: after) n ≤ before.length := by
    by_contra hlt
    have hle := (le_complete_iff (F := F) hk).mp (not_le.mp hlt)
    rw [htake] at hle
    omega
  have hafter : before.length + 1 ≤ F.complete (before ++ payload :: after) m :=
    (le_complete_iff hk).mpr (by rwa [htake])
  obtain ⟨k, hk⟩ := Nat.exists_eq_add_of_le hafter
  refine ⟨hbefore, ?_⟩
  have hwhole : (before ++ payload :: after).take (before.length + 1 + k) =
      before ++ payload :: after.take k := by
    rw [List.take_append, List.take_of_length_le (by omega),
      show before.length + 1 + k - before.length = k + 1 by omega, List.take_succ_cons]
  rw [between, hk, Nat.add_sub_cancel_left, hwhole, List.drop_append_of_le_length hbefore]

/-- What becomes complete between two points ends between them. -/
theorem ends_of_between {after : List (List α)} {m : Nat} (hnm : n ≤ m)
    (h : F.between payloads n m = before ++ payload :: after) :
    payloads = payloads.take (F.complete payloads n) ++ before ++
        payload :: (after ++ payloads.drop (F.complete payloads m)) ∧
      n < (F.encodeAll (payloads.take (F.complete payloads n) ++ before ++ [payload])).length ∧
      (F.encodeAll (payloads.take (F.complete payloads n) ++ before ++ payload :: after)).length ≤
        m := by
  -- what is complete at the later point begins with what was at the earlier one
  have htake : payloads.take (F.complete payloads n) ++ before ++ payload :: after =
      payloads.take (F.complete payloads m) := by
    rw [← take_append_between hnm, h, List.append_assoc]
  have hsplit : payloads = payloads.take (F.complete payloads n) ++ before ++
      payload :: (after ++ payloads.drop (F.complete payloads m)) := by
    rw [← List.cons_append, ← List.append_assoc, htake, List.take_append_drop]
  have hle := complete_le_length (F := F) payloads n
  have hlength : (payloads.take (F.complete payloads n)).length = F.complete payloads n := by
    rw [List.length_take, min_eq_left hle]
  refine ⟨hsplit, ?_, ?_⟩
  · have hlast : (payloads.take (F.complete payloads n) ++ before ++ [payload]).length =
        F.complete payloads n + before.length + 1 := by
      rw [List.length_append, List.length_append, hlength, List.length_singleton]
    have hpre : payloads.take (F.complete payloads n) ++ before ++ [payload] <+: payloads := by
      refine ⟨after ++ payloads.drop (F.complete payloads m), ?_⟩
      rw [← List.append_cons]
      exact hsplit.symm
    have hfirst := List.prefix_iff_eq_take.mp hpre
    have hsize := hpre.length_le
    rw [hlast] at hfirst hsize
    by_contra hend
    rw [hfirst] at hend
    have hcomplete := (le_complete_iff (F := F) (n := n) (by omega)).mpr (not_lt.mp hend)
    omega
  · rw [htake]
    exact (le_complete_iff (complete_le_length payloads m)).mp le_rfl

/-- The next piece of the stream completes the payloads up to its end, and leaves a cut. -/
theorem cut_append {piece : List α}
    (hpiece : (F.encodeAll payloads).take n ++ piece <+: F.encodeAll payloads)
    (hn : n ≤ (F.encodeAll payloads).length) :
    F.cut payloads n ++ piece =
      F.encodeAll (F.between payloads n (n + piece.length)) ++ F.cut payloads (n + piece.length) := by
  have hlength : ((F.encodeAll payloads).take n ++ piece).length = n + piece.length := by
    rw [List.length_append, List.length_take, min_eq_left hn]
  have htake := List.prefix_iff_eq_take.mp hpiece
  rw [hlength, take_encodeAll, take_encodeAll, ← take_append_between (Nat.le_add_right n _),
    encodeAll_append, List.append_assoc, List.append_assoc] at htake
  exact List.append_cancel_left htake

/-! ## Handling the frames -/

/-- What becomes of the reading after a frame. -/
inductive Verdict
  | next
  | stop
  | fail
deriving DecidableEq

/-- The handler gets payloads one by one; the payloads that it does not get, and whether it failed. -/
def consume (handle : σ → List α → σ × Verdict) : σ → List (List α) → σ × List (List α) × Bool
  | s, [] => (s, [], false)
  | s, payload :: payloads =>
      match handle s payload with
      | (s, .next) => consume handle s payloads
      | (s, .stop) => (s, payloads, false)
      | (s, .fail) => (s, payloads, true)

/-- The state after all payloads. -/
def handled (handle : σ → List α → σ × Verdict) (s : σ) (payloads : List (List α)) : σ :=
  payloads.foldl (fun s payload => (handle s payload).1) s

variable {handle : σ → List α → σ × Verdict} {s : σ}

/-- The handler does not get payloads at the end. -/
theorem left_suffix (handle : σ → List α → σ × Verdict) (s : σ) (payloads : List (List α)) :
    (consume handle s payloads).2.1 <:+ payloads := by
  induction payloads generalizing s with
  | nil => exact List.suffix_rfl
  | cons payload payloads ih =>
      rw [consume]
      rcases handle s payload with ⟨s', verdict⟩
      cases verdict with
      | next => exact (ih s').trans (List.suffix_cons _ _)
      | stop | fail => exact List.suffix_cons _ _

/-- The handler goes on after every payload; after the last one it may stop. -/
def Smooth (handle : σ → List α → σ × Verdict) : σ → List (List α) → Prop
  | _, [] => True
  | s, payload :: payloads =>
      match handle s payload with
      | (s, .next) => Smooth handle s payloads
      | (_, .stop) => payloads = []
      | (_, .fail) => False

/-- A smooth reading handles all payloads. -/
theorem consume_of_smooth (h : Smooth handle s payloads) :
    consume handle s payloads = (handled handle s payloads, [], false) := by
  induction payloads generalizing s with
  | nil => rfl
  | cons payload payloads ih =>
      rw [Smooth] at h
      rw [consume, handled, List.foldl_cons]
      rcases hhandle : handle s payload with ⟨s', verdict⟩
      rw [hhandle] at h
      cases verdict with
      | next => exact ih h
      | stop =>
          obtain rfl : payloads = [] := h
          rfl
      | fail => exact h.elim

/-- Any other reading leaves payloads or fails. -/
theorem smooth_of_consume (h : (consume handle s payloads).2 = ([], false)) :
    Smooth handle s payloads := by
  induction payloads generalizing s with
  | nil => trivial
  | cons payload payloads ih =>
      rw [consume] at h
      rw [Smooth]
      rcases hhandle : handle s payload with ⟨s', verdict⟩
      rw [hhandle] at h
      cases verdict with
      | next => exact ih h
      | stop => exact (Prod.mk.inj h).1
      | fail => cases (Prod.mk.inj h).2

/-- A reading is smooth exactly if the handler fails at no payload and goes on where one follows. -/
theorem smooth_iff : Smooth handle s payloads ↔
    ∀ before payload after, payloads = before ++ payload :: after →
      (handle (handled handle s before) payload).2 ≠ .fail ∧
        (after ≠ [] → (handle (handled handle s before) payload).2 = .next) := by
  induction payloads generalizing s with
  | nil =>
      rw [Smooth, true_iff]
      intro before payload after hsplit
      cases before <;> cases hsplit
  | cons first payloads ih =>
      -- the verdict on the first payload decides whether the rest is read
      rw [Smooth]
      rcases hhandle : handle s first with ⟨s', verdict⟩
      have hstate : (handle s first).1 = s' := by rw [hhandle]
      have hverdict : (handle s first).2 = verdict := by rw [hhandle]
      constructor
      · intro hsmooth before payload after hsplit
        cases before with
        | nil =>
            obtain ⟨rfl, rfl⟩ := List.cons.inj hsplit
            rw [handled, List.foldl_nil, hverdict]
            cases verdict with
            | next => simp
            | stop => exact ⟨by simp, fun hne => absurd hsmooth hne⟩
            | fail => exact hsmooth.elim
        | cons second before =>
            obtain ⟨rfl, rfl⟩ := List.cons.inj hsplit
            rw [handled, List.foldl_cons, hstate]
            cases verdict with
            | next => exact ih.mp hsmooth before payload after rfl
            | stop => simp at hsmooth
            | fail => exact hsmooth.elim
      · intro hall
        obtain ⟨hfail, hgo⟩ := hall [] first payloads rfl
        rw [handled, List.foldl_nil, hverdict] at hfail hgo
        cases verdict with
        | next =>
            refine ih.mpr fun before payload after hsplit => ?_
            have hcons := hall (first :: before) payload after (by rw [hsplit]; rfl)
            rwa [handled, List.foldl_cons, hstate] at hcons
        | stop =>
            by_contra hne
            cases hgo hne
        | fail => exact hfail rfl

end Framing

end Foundation
