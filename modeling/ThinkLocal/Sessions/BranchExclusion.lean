import ThinkLocal.Sessions.SessionCheckout

/-!
# Who holds a branch

Between the statements of a checkout another process can take the branch, or the lock can run out
and be evicted.  Then the `INSERT` meets a row and throws, and the `UPDATE` of a refresh meets no
row or that of another agent and is answered as a success.  Without such a disturbance every lock
that was answered and has not run out is in the table, so nobody else has it.
-/

namespace ThinkLocal.Checkout

open Foundation Js

variable {s s' : State} {call : Nat} {args : CheckoutArgs} {time : Int}

/-- No two agents hold a branch, no checkout has thrown because it lost a race, and every answer
names the holder. -/
structure BranchSafe (s : State) : Prop where
  exclusive : Exclusive s.now s.grants
  answered : ∀ args, Answer.constraint args ∉ s.answers
  named : ∀ args result, Answer.checkout args result ∈ s.answers →
    (result.ok = true ↔ result.holder = args.agentId)

/-! ## The condition on a run -/

/-- The statement meets what the `SELECT` of its call has found: the row of the agent, which does not
last longer than it would now, or none. -/
def Phase.Undisturbed (s : State) (reading : Int) : Phase → Prop
  | refreshes args _ => ∃ lock ∈ s.locks.get args.branch, lock.agent_id = args.agentId ∧
      lock.expires_at ≤ reading + args.maxLockDurationMs
  | inserts args => s.locks.get args.branch = none
  | _ => True

/-- A row is evicted only when it has run out, and a refresh and an insertion are undisturbed. -/
def Undisturbed (s : State) : Action → Prop
  | .evict _ reading => ∀ row ∈ s.locks.entries, textLess row.2.expires_at reading = true →
      row.2.expires_at < reading
  | .refresh call reading | .insert call _ reading =>
      ∀ entry ∈ s.calls.get call, entry.1.Undisturbed s reading
  | _ => True

instance (s : State) (reading : Int) (phase : Phase) : Decidable (phase.Undisturbed s reading) := by
  cases phase <;> unfold Phase.Undisturbed <;> infer_instance

instance (s : State) (a : Action) : Decidable (Undisturbed s a) := by
  cases a <;> unfold Undisturbed <;> infer_instance

/-! ## The table as leases -/

def State.leases (s : State) (branch : String) : Option (Lease String Int) :=
  (s.locks.get branch).map fun lock => ⟨lock.agent_id, lock.expires_at⟩

theorem leases_eq_some {branch : String} {lease : Lease String Int} :
    s.leases branch = some lease ↔ ∃ lock, s.locks.get branch = some lock ∧
      lock.agent_id = lease.owner ∧ lock.expires_at = lease.deadline := by
  rw [State.leases, Option.map_eq_some_iff]
  constructor
  · rintro ⟨lock, hlock, rfl⟩
    exact ⟨lock, hlock, rfl, rfl⟩
  · rintro ⟨lock, hlock, howner, hdeadline⟩
    exact ⟨lock, hlock, by rw [howner, hdeadline]⟩

/-- The invariant: the table backs the answers. -/
structure Held (s : State) : Prop where
  backed : Backed s.leases s.now s.grants
  answered : ∀ args, Answer.constraint args ∉ s.answers
  named : ∀ args result, Answer.checkout args result ∈ s.answers →
    (result.ok = true ↔ result.holder = args.agentId)

theorem Held.branchSafe (h : Held s) : BranchSafe s := ⟨h.backed.exclusive, h.answered, h.named⟩

/-- An answer that is no exception of the primary key and names the holder. -/
def Answer.Fair : Answer → Prop
  | checkout args result => result.ok = true ↔ result.holder = args.agentId
  | constraint _ => False
  | _ => True

theorem Held.start (h : Held s) (phase : Phase) : Held (s.start phase) :=
  ⟨h.backed, h.answered, h.named⟩

theorem Held.goOn (h : Held s) (call : Nat) (phase : Phase) : Held (s.goOn call phase) :=
  ⟨h.backed, h.answered, h.named⟩

theorem Held.answers_cons (h : Held s) {answer : Answer} (hfair : answer.Fair) :
    (∀ args, Answer.constraint args ∉ answer :: s.answers) ∧
      ∀ args result, Answer.checkout args result ∈ answer :: s.answers →
        (result.ok = true ↔ result.holder = args.agentId) := by
  constructor
  · intro args hmem
    rcases List.mem_cons.mp hmem with rfl | hold
    · exact hfair
    · exact h.answered args hold
  · intro args result hmem
    rcases List.mem_cons.mp hmem with rfl | hold
    · exact hfair
    · exact h.named args result hold

theorem Held.answer (h : Held s) (call : Nat) {answer : Answer} (hfair : answer.Fair) :
    Held (s.answer call answer) := by
  obtain ⟨hanswered, hnamed⟩ := h.answers_cons hfair
  exact ⟨h.backed, hanswered, hnamed⟩

/-! ## The statements -/

theorem Held.evictExpired (h : Held s) {reading : Int} (hreading : reading ≤ s.now)
    (hC : ∀ row ∈ s.locks.entries, textLess row.2.expires_at reading = true →
      row.2.expires_at < reading) : Held (s.evictExpired reading) := by
  refine ⟨h.backed.of_table ?_, h.answered, h.named⟩
  intro branch lease hlease hlive
  obtain ⟨lock, hlock, howner, hdeadline⟩ := leases_eq_some.mp hlease
  -- a lock that has not run out is kept
  refine ⟨lease, leases_eq_some.mpr ⟨lock, ?_, howner, hdeadline⟩, rfl, le_rfl⟩
  rw [State.evictExpired, InsertionMap.get_filter, hlock]
  refine Option.filter_eq_some_iff.mpr ⟨rfl, ?_⟩
  cases hless : textLess lock.expires_at reading with
  | false => rfl
  | true =>
      have hexpired : lock.expires_at < reading :=
        hC (branch, lock) (InsertionMap.get_eq_some_iff.mp hlock) hless
      omega

theorem Held.select (h : Held s) (call : Nat) (args : CheckoutArgs) : Held (s.select call args) := by
  unfold State.select
  split
  case h_1 => exact h.goOn call _
  case h_2 existing _ =>
    split
    case isTrue => exact h.goOn call _
    case isFalse hother =>
      refine h.answer call (iff_of_false ?_ hother)
      exact Bool.false_ne_true

/-- The row of a branch is written, and its agent gets the answer. -/
theorem Held.grant (h : Held s) {lock : CheckoutLock} {locked_at : Int} (call : Nat)
    (hagent : lock.agent_id = args.agentId)
    (hbefore : ∀ old, s.locks.get args.branch = some old →
      old.agent_id = args.agentId ∧ old.expires_at ≤ lock.expires_at) :
    Held ({ s with locks := s.locks.set args.branch lock }.grant call args locked_at
      lock.expires_at) := by
  have hset : ∀ branch, State.leases { s with locks := s.locks.set args.branch lock } branch =
      if branch = args.branch then some ⟨lock.agent_id, lock.expires_at⟩ else s.leases branch := by
    intro branch
    rw [State.leases, InsertionMap.get_set]
    split <;> rfl
  have hwritten : Held { s with locks := s.locks.set args.branch lock } := by
    refine ⟨h.backed.of_table ?_, h.answered, h.named⟩
    intro branch lease hlease _
    rw [hset]
    by_cases hbranch : branch = args.branch
    -- the row that was there is one of the same agent
    · rw [hbranch] at hlease
      obtain ⟨old, hold, howner, hdeadline⟩ := leases_eq_some.mp hlease
      obtain ⟨hsame, hlasts⟩ := hbefore old hold
      exact ⟨_, if_pos hbranch, hagent.trans (hsame.symm.trans howner), hdeadline.ge.trans hlasts⟩
    · exact ⟨lease, (if_neg hbranch).trans hlease, rfl, le_rfl⟩
  have hfair : (Answer.checkout args
      ⟨true, args.branch, args.agentId, locked_at, lock.expires_at⟩).Fair := iff_of_true rfl rfl
  have hanswered := hwritten.answer call hfair
  refine ⟨hanswered.backed.cons ((hset args.branch).trans (if_pos rfl)) hagent le_rfl,
    hanswered.answered, hanswered.named⟩

theorem Held.refresh (h : Held s) {existing : CheckoutLock} {reading : Int} (call : Nat)
    (hC : (Phase.refreshes args existing).Undisturbed s reading) :
    Held (s.refresh call args existing reading) := by
  obtain ⟨lock, hlock, hagent, hlasts⟩ := hC
  unfold State.refresh
  dsimp only
  split
  case h_1 => exact h.answer call trivial
  case h_2 =>
    rw [Option.mem_def.mp hlock]
    dsimp only
    have hbefore : ∀ old, s.locks.get args.branch = some old →
        old.agent_id = args.agentId ∧ old.expires_at ≤ reading + args.maxLockDurationMs := by
      intro old hold
      obtain rfl := Option.some.inj ((Option.mem_def.mp hlock).symm.trans hold)
      exact ⟨hagent, hlasts⟩
    let refreshed : CheckoutLock := { lock with
      expires_at := reading + args.maxLockDurationMs, purpose := args.purpose <|> lock.purpose }
    have hrefreshed : refreshed.agent_id = args.agentId := hagent
    exact h.grant call hrefreshed hbefore

theorem Held.insert (h : Held s) {now reading : Int} (call : Nat)
    (hC : (Phase.inserts args).Undisturbed s reading) : Held (s.insert call args now reading) := by
  have hnone : s.locks.get args.branch = none := hC
  unfold State.insert
  dsimp only
  split
  case h_2 => exact h.answer call trivial
  case h_1 =>
    rw [InsertionMap.has, hnone, Option.isSome_none, if_neg Bool.false_ne_true]
    let lock : CheckoutLock :=
      ⟨args.agentId, now, reading + args.maxLockDurationMs, args.purpose⟩
    have hagent : lock.agent_id = args.agentId := rfl
    refine h.grant call hagent fun old hold => ?_
    cases hnone.symm.trans hold

theorem Held.remove (h : Held s) (branch : String) (picked : String → Bool) :
    Held (s.remove branch picked) := by
  have hfair : (Answer.released
      ((s.locks.get branch).filter fun lock => picked lock.agent_id).isSome).Fair := trivial
  obtain ⟨hanswered, hnamed⟩ := h.answers_cons hfair
  refine ⟨h.backed.giveBack (fun grant => grant.key = branch && picked grant.owner) ?_, hanswered,
    hnamed⟩
  intro key lease hlease
  obtain ⟨lock, hlock, howner, hdeadline⟩ := leases_eq_some.mp hlease
  by_cases hkey : key = branch
  · subst hkey
    cases hpicked : picked lock.agent_id with
    -- the lock goes, and so do the grants of its agent
    | true =>
        refine .inr fun grant _ hgrant hgrantOwner => ?_
        simp only [hgrant, hgrantOwner, ← howner, hpicked, decide_true, Bool.and_self]
    -- the lock of another agent stays
    | false =>
        have hrow : (s.locks.get key).filter (fun lock => picked lock.agent_id) = none := by
          rw [hlock]
          exact Option.filter_eq_none_iff.mpr fun old hold => by
            obtain rfl := Option.mem_some_iff.mp hold
            simp [hpicked]
        refine .inl ?_
        rw [State.leases, State.remove, hrow]
        exact hlease
  · refine .inl (leases_eq_some.mpr ⟨lock, ?_, howner, hdeadline⟩)
    rw [State.remove]
    dsimp only
    split
    case isTrue => rw [InsertionMap.get_delete_of_ne _ hkey, hlock]
    case isFalse => exact hlock

/-! ## Every run -/

theorem held_step (h : Held s) {a : Action} (hC : Undisturbed s a) (hs : step s a = some s') :
    Held s' := by
  cases a with
  | wait time =>
      dsimp only [step] at hs
      split_ifs at hs with hnow
      obtain rfl := Option.some.inj hs
      exact ⟨h.backed.wait hnow, h.answered, h.named⟩
  | checkout args =>
      obtain rfl := Option.some.inj hs
      exact h.start _
  | isLocked branch =>
      obtain rfl := Option.some.inj hs
      exact h.start _
  | listLocks =>
      obtain rfl := Option.some.inj hs
      exact h.start _
  | evict call reading =>
      dsimp only [step] at hs
      split at hs
      case h_3 => cases hs
      all_goals
        split_ifs at hs with hreading
        obtain rfl := Option.some.inj hs
        -- whatever the call goes on with, the expired rows are gone
        exact (h.evictExpired hreading.2 hC).goOn call _
  | select call =>
      dsimp only [step] at hs
      split at hs
      case h_4 => cases hs
      case h_1 args _ _ =>
        obtain rfl := Option.some.inj hs
        exact h.select call args
      all_goals
        obtain rfl := Option.some.inj hs
        exact h.answer call trivial
  | refresh call reading =>
      dsimp only [step] at hs
      split at hs
      case h_2 => cases hs
      case h_1 args existing since hcall =>
        split_ifs at hs with hreading
        obtain rfl := Option.some.inj hs
        -- the row that is refreshed is the one that was read, by the condition
        exact h.refresh call (hC _ hcall)
  | insert call now reading =>
      dsimp only [step] at hs
      split at hs
      case h_2 => cases hs
      case h_1 args since hcall =>
        split_ifs at hs with hreading
        obtain rfl := Option.some.inj hs
        -- and the branch of an insert has no row
        exact h.insert call (hC _ hcall)
  | release branch agentId =>
      obtain rfl := Option.some.inj hs
      exact h.remove branch _
  | forceRelease branch =>
      obtain rfl := Option.some.inj hs
      exact h.remove branch _

/-- In a run whose every step is undisturbed no two agents hold a branch, and every checkout is
answered with the holder. -/
theorem branch_exclusion {now : Int} (h : (sessionCheckout now).ReachableUnder Undisturbed s) :
    BranchSafe s := by
  have hinit : Held (sessionCheckout now).init := by
    refine ⟨fun grant hgrant => ?_, fun args hmem => ?_, fun args result hmem => ?_⟩
    · cases hgrant
    · cases hmem
    · cases hmem
  exact (h.invariant hinit fun _ _ _ hheld hC hs => held_step hheld hC hs).branchSafe

/-! Two agents and a lock of two hours. -/

def sampleArgs (agentId : String) : CheckoutArgs := ⟨"main", agentId, none, 7200000⟩

/-- A checkout until it has looked for the row. -/
def selecting (call : Nat) (agentId : String) (reading : Int) : List Action :=
  [.checkout (sampleArgs agentId), .evict call reading, .select call]

def firstCheckout : List Action := selecting 0 "a" 0 ++ [.insert 0 0 0]

/-- The second agent is denied, and gets the branch after the first one has refreshed and released
it. -/
def undisturbedRun : List Action :=
  firstCheckout ++ selecting 1 "b" 0 ++ .wait 1000 :: (selecting 2 "a" 1000 ++
    .refresh 2 1000 :: .release "main" "a" :: (selecting 3 "b" 1000 ++ [.insert 3 1000 1000]))

theorem branch_exclusion_undisturbed : ∃ s, (sessionCheckout 0).runFrom (sessionCheckout 0).init
    undisturbedRun = some s ∧ s.answers.length = 5 ∧ BranchSafe s := by
  have hrun : ((sessionCheckout 0).runFrom (sessionCheckout 0).init undisturbedRun).map
      (fun s => s.answers.length) = some 5 := by decide +kernel
  obtain ⟨s, hs, hanswers⟩ := Option.map_eq_some_iff.mp hrun
  have hmeets : (sessionCheckout 0).Meets Undisturbed (sessionCheckout 0).init undisturbedRun := by
    decide +kernel
  exact ⟨s, hs, hanswers, branch_exclusion (Machine.ReachableUnder.init.runFrom hmeets hs)⟩

/-- Both agents find no row, and the second one inserts into the row of the first. -/
def twoInserts : List Action :=
  selecting 0 "a" 0 ++ selecting 1 "b" 0 ++ [.insert 0 0 0, .insert 1 0 0]

/-- The lock of the first agent runs out between its `SELECT` and its `UPDATE`, and the second agent
gets the branch. -/
def lateRefresh : List Action :=
  firstCheckout ++ selecting 1 "a" 0 ++ .wait 7200001 :: (selecting 2 "b" 7200001 ++
    [.insert 2 7200001 7200001, .refresh 1 7200001])

/-- A checkout throws, or two agents hold the branch. -/
theorem branch_taken_twice :
    (∃ s, (sessionCheckout 0).runFrom (sessionCheckout 0).init twoInserts = some s ∧
        ¬ BranchSafe s) ∧
      ∃ s, (sessionCheckout 0).runFrom (sessionCheckout 0).init lateRefresh = some s ∧
        ¬ BranchSafe s := by
  constructor
  · have hrun : ((sessionCheckout 0).runFrom (sessionCheckout 0).init twoInserts).map
        (fun s => s.answers.head?) = some (some (.constraint (sampleArgs "b"))) := by
      decide +kernel
    obtain ⟨s, hs, hthrown⟩ := Option.map_eq_some_iff.mp hrun
    exact ⟨s, hs, fun hsafe => hsafe.answered _ (List.mem_of_mem_head? hthrown)⟩
  · have hrun : ((sessionCheckout 0).runFrom (sessionCheckout 0).init lateRefresh).map
        (fun s => (s.now, s.grants)) = some (7200001,
          [⟨"main", "a", 14400001⟩, ⟨"main", "b", 14400001⟩, ⟨"main", "a", 7200000⟩]) := by
      decide +kernel
    obtain ⟨s, hs, hpair⟩ := Option.map_eq_some_iff.mp hrun
    obtain ⟨hnow, hgrants⟩ := Prod.mk.inj hpair
    refine ⟨s, hs, fun hsafe => ?_⟩
    have hexclusive := hsafe.exclusive
    rw [hnow, hgrants] at hexclusive
    have hsame : "a" = "b" := hexclusive ⟨"main", "a", 14400001⟩ (by simp)
      ⟨"main", "b", 14400001⟩ (by simp) rfl (by decide) (by decide)
    exact absurd hsame (by decide)

end ThinkLocal.Checkout
