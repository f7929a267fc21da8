import ThinkLocal.Foundation.InsertionMap
import ThinkLocal.Foundation.Machine
import ThinkLocal.Foundation.Clocks

/-!
# The rate limiter

`RateLimiter` of `ratelimit.ts`, with exact tokens.  A bucket is refilled when it is used, and the
periodic clean-up removes what was not refilled for ten minutes; the bucket that replaces it is
full.
-/

namespace ThinkLocal.Mesh

open Foundation TokenBucket

structure RateLimitConfig where
  maxTokens : ℚ := 20
  refillRate : ℚ := 2

structure BucketState where
  tokens : ℚ
  lastRefill : ℤ
  deriving DecidableEq

abbrev Buckets := InsertionMap String BucketState

/-- A reading of the clock in seconds. -/
def seconds (ms : ℤ) : ℚ := ms / 1000

/-! ## The limiter -/

section Limiter

variable (config : RateLimitConfig)

def BucketState.refill (bucket : BucketState) (now : ℤ) : BucketState :=
  let elapsed := seconds (now - bucket.lastRefill)
  let newTokens := elapsed * config.refillRate
  if 0 < newTokens then ⟨min config.maxTokens (bucket.tokens + newTokens), now⟩ else bucket

def getOrCreateBucket (buckets : Buckets) (peerId : String) (now : ℤ) : BucketState :=
  (buckets.get peerId).getD ⟨config.maxTokens, now⟩

/-- The clock is read where a bucket is made, and again where it is refilled. -/
def allow (buckets : Buckets) (peerId : String) (created now : ℤ) : Bool × Buckets :=
  let bucket := (getOrCreateBucket config buckets peerId created).refill config now
  if 1 ≤ bucket.tokens then (true, buckets.set peerId { bucket with tokens := bucket.tokens - 1 })
  else (false, buckets.set peerId bucket)

def remaining (buckets : Buckets) (peerId : String) (now : ℤ) : ℚ × Buckets :=
  match buckets.get peerId with
  | none => (config.maxTokens, buckets)
  | some bucket =>
      let bucket := bucket.refill config now
      (⌊bucket.tokens⌋, buckets.set peerId bucket)

def removePeer (buckets : Buckets) (peerId : String) : Buckets := buckets.delete peerId

def cleanup (buckets : Buckets) (now : ℤ) : Buckets :=
  let cutoff := now - 10 * 60000
  buckets.filter fun _ bucket => ¬ bucket.lastRefill < cutoff

end Limiter

/-! ## Calls -/

inductive LimiterCall
  | allow (peerId : String) (created now : ℤ)
  | remaining (peerId : String) (now : ℤ)
  | removePeer (peerId : String)
  | cleanup (now : ℤ)

inductive LimiterAnswer
  | allowed (answer : Bool)
  | remaining (tokens : ℚ)
  deriving DecidableEq

namespace LimiterCall

/-- The answer of a call, with its peer, and the buckets after it. -/
def run (config : RateLimitConfig) (buckets : Buckets) :
    LimiterCall → Option (String × LimiterAnswer) × Buckets
  | allow peerId created now =>
      let result := Mesh.allow config buckets peerId created now
      (some (peerId, .allowed result.1), result.2)
  | remaining peerId now =>
      let result := Mesh.remaining config buckets peerId now
      (some (peerId, .remaining result.1), result.2)
  | removePeer peerId => (none, Mesh.removePeer buckets peerId)
  | cleanup now => (none, Mesh.cleanup buckets now)

/-- Does the call come after a time, with a clock that does not go back? -/
def After (time : ℤ) : LimiterCall → Prop
  | allow _ created now => time ≤ created ∧ created ≤ now
  | remaining _ now | cleanup now => time ≤ now
  | removePeer _ => True

instance (time : ℤ) (call : LimiterCall) : Decidable (call.After time) := by
  cases call <;> simp only [After] <;> infer_instance

/-- The last reading of the clock. -/
def time (before : ℤ) : LimiterCall → ℤ
  | allow _ _ now | remaining _ now | cleanup now => now
  | removePeer _ => before

/-- Is the call about this peer, or a clean-up? -/
def concerns (peerId : String) : LimiterCall → Bool
  | allow other _ _ | remaining other _ | removePeer other => other = peerId
  | cleanup _ => true

end LimiterCall

/-- The answers for a peer in a list of calls. -/
def answersFor (config : RateLimitConfig) (peerId : String) (buckets : Buckets) :
    List LimiterCall → List LimiterAnswer
  | [] => []
  | call :: rest =>
      let result := call.run config buckets
      ((result.1.toList.filter fun a => a.1 = peerId).map Prod.snd) ++
        answersFor config peerId result.2 rest

/-- The buckets, the clock and the requests that were admitted, with their times. -/
structure RateLimiter where
  buckets : Buckets
  now : ℤ
  admitted : List (String × ℤ)

/-- The request that an answer admits. -/
def admittedBy (now : ℤ) : Option (String × LimiterAnswer) → List (String × ℤ)
  | some (peerId, .allowed true) => [(peerId, now)]
  | some (_, .allowed false) | some (_, .remaining _) | none => []

def RateLimiter.after (config : RateLimitConfig) (s : RateLimiter) (call : LimiterCall) :
    RateLimiter :=
  let result := call.run config s.buckets
  let now := call.time s.now
  { buckets := result.2, now := now, admitted := s.admitted ++ admittedBy now result.1 }

def limiterMachine (config : RateLimitConfig) (start : ℤ) : Machine RateLimiter LimiterCall where
  init := ⟨.empty, start, []⟩
  step s call :=
    if call.After s.now then some (s.after config call) else none

/-! ## The bound -/

/-- The times in seconds at which requests of a peer were admitted. -/
def RateLimiter.timesOf (s : RateLimiter) (peerId : String) : List ℚ :=
  (s.admitted.filter fun a => a.1 = peerId).map fun a => seconds a.2

/-- The number of admitted requests of a peer in a window of seconds. -/
def RateLimiter.admittedIn (s : RateLimiter) (peerId : String) (a b : ℚ) : ℕ :=
  countIn (s.timesOf peerId) a b

/-- The tokens that a bucket would have if it were refilled. -/
def levelAt (config : RateLimitConfig) (now : ℤ) : Option BucketState → ℚ
  | none => config.maxTokens
  | some bucket => min config.maxTokens
      (bucket.tokens + seconds (now - bucket.lastRefill) * config.refillRate)

/-- The peer is not removed, and a clean-up that removes its bucket finds it full. -/
def FullAtCleanup (config : RateLimitConfig) (peerId : String) (s : RateLimiter) :
    LimiterCall → Prop
  | .removePeer other => other ≠ peerId
  | .cleanup now => ∀ bucket ∈ s.buckets.get peerId, bucket.lastRefill < now - 10 * 60000 →
      config.maxTokens ≤
        bucket.tokens + seconds (now - bucket.lastRefill) * config.refillRate
  | .allow _ _ _ | .remaining _ _ => True

instance (config : RateLimitConfig) (peerId : String) (s : RateLimiter) (call : LimiterCall) :
    Decidable (FullAtCleanup config peerId s call) := by
  cases call <;> simp only [FullAtCleanup] <;> infer_instance

/-- The account of a peer. -/
structure PeerAccount (config : RateLimitConfig) (peerId : String) (s : RateLimiter) : Prop where
  account : Account config.maxTokens config.refillRate (s.timesOf peerId)
    (levelAt config s.now (s.buckets.get peerId)) (seconds s.now)
  bucket : ∀ bucket ∈ s.buckets.get peerId,
    bucket.tokens ≤ config.maxTokens ∧ bucket.lastRefill ≤ s.now

section Bound

variable {config : RateLimitConfig} {s s' : RateLimiter} {peerId : String} {now later : ℤ}
  {bucket : BucketState}

theorem seconds_mono (h : now ≤ later) : seconds now ≤ seconds later := by
  have hcast : (now : ℚ) ≤ later := by exact_mod_cast h
  exact div_le_div_of_nonneg_right hcast (by norm_num)

theorem seconds_sub (now later : ℤ) : seconds (later - now) = seconds later - seconds now := by
  unfold seconds
  push_cast
  ring

theorem levelAt_le (config : RateLimitConfig) (now : ℤ) (bucket : Option BucketState) :
    levelAt config now bucket ≤ config.maxTokens := by
  cases bucket with
  | none => exact le_rfl
  | some bucket => exact min_le_left _ _

/-- A level gains at most the rate. -/
theorem levelAt_gain (hrate : 0 < config.refillRate) (h : now ≤ later)
    (bucket : Option BucketState) : levelAt config later bucket ≤
      levelAt config now bucket + config.refillRate * (seconds later - seconds now) := by
  have hgain : 0 ≤ config.refillRate * (seconds later - seconds now) :=
    mul_nonneg hrate.le (sub_nonneg.mpr (seconds_mono h))
  cases bucket with
  | none => exact le_add_of_nonneg_right hgain
  | some bucket =>
      simp only [levelAt, seconds_sub]
      rw [← min_add_add_right]
      refine min_le_min (le_add_of_nonneg_right hgain) (le_of_eq ?_)
      ring

/-- A refill brings the bucket to its level. -/
theorem refill_eq (hrate : 0 < config.refillRate) (htokens : bucket.tokens ≤ config.maxTokens)
    (hlast : bucket.lastRefill ≤ now) :
    bucket.refill config now = ⟨levelAt config now (some bucket), now⟩ := by
  unfold BucketState.refill
  dsimp only
  rcases hlast.lt_or_eq with hlt | rfl
  · have hsub : (0 : ℚ) < now - bucket.lastRefill := by
      have hcast : (bucket.lastRefill : ℚ) < now := by exact_mod_cast hlt
      exact sub_pos.mpr hcast
    have helapsed : 0 < seconds (now - bucket.lastRefill) := by
      unfold seconds
      push_cast
      exact div_pos hsub (by norm_num)
    rw [if_pos (mul_pos helapsed hrate)]
    rfl
  · simp [levelAt, seconds, htokens]

theorem levelAt_now (tokens : ℚ) (htokens : tokens ≤ config.maxTokens) :
    levelAt config now (some ⟨tokens, now⟩) = tokens := by
  simp [levelAt, seconds, htokens]

/-- The bucket that a call refills is at the level of its peer. -/
theorem getOrCreateBucket_refill (hrate : 0 < config.refillRate) {buckets : Buckets} {created : ℤ}
    (hbucket : ∀ bucket ∈ buckets.get peerId,
      bucket.tokens ≤ config.maxTokens ∧ bucket.lastRefill ≤ now) (hcreated : created ≤ now) :
    (getOrCreateBucket config buckets peerId created).refill config now =
      ⟨levelAt config now (buckets.get peerId), now⟩ := by
  unfold getOrCreateBucket
  cases hget : buckets.get peerId with
  | none =>
      have hgain : 0 ≤ seconds (now - created) * config.refillRate := by
        refine mul_nonneg ?_ hrate.le
        rw [seconds_sub]
        exact sub_nonneg.mpr (seconds_mono hcreated)
      rw [Option.getD_none, refill_eq hrate le_rfl hcreated]
      simp only [levelAt]
      rw [min_eq_left (le_add_of_nonneg_right hgain)]
  | some bucket =>
      obtain ⟨htokens, hlast⟩ := hbucket bucket hget
      exact refill_eq hrate htokens hlast

theorem PeerAccount.wait (h : PeerAccount config peerId s) (hrate : 0 < config.refillRate)
    (hlater : s.now ≤ later) :
    Account config.maxTokens config.refillRate (s.timesOf peerId)
      (levelAt config later (s.buckets.get peerId)) (seconds later) :=
  h.account.wait hrate.le (seconds_mono hlater) (levelAt_le _ _ _) (levelAt_gain hrate hlater _)

/-- What does not touch the peer keeps its account. -/
theorem PeerAccount.frame (h : PeerAccount config peerId s) (hrate : 0 < config.refillRate)
    (hnow : s.now ≤ s'.now) (hget : s'.buckets.get peerId = s.buckets.get peerId)
    (htimes : s'.timesOf peerId = s.timesOf peerId) : PeerAccount config peerId s' := by
  refine ⟨?_, fun bucket hbucket => ?_⟩
  · rw [hget, htimes]
    exact h.wait hrate hnow
  · rw [hget] at hbucket
    exact (h.bucket bucket hbucket).imp_right fun hlast => hlast.trans hnow

/-- The peer has a bucket refilled now. -/
theorem peerAccount_of_refilled {tokens : ℚ} (htokens : tokens ≤ config.maxTokens)
    (hget : s.buckets.get peerId = some ⟨tokens, s.now⟩)
    (haccount : Account config.maxTokens config.refillRate (s.timesOf peerId) tokens
      (seconds s.now)) : PeerAccount config peerId s := by
  refine ⟨?_, fun bucket hbucket => ?_⟩
  · rwa [hget, levelAt_now tokens htokens]
  · rw [hget] at hbucket
    obtain rfl := Option.some.inj hbucket
    exact ⟨htokens, le_rfl⟩

theorem timesOf_append (s : RateLimiter) (buckets : Buckets) (now : ℤ) (more : List (String × ℤ)) :
    RateLimiter.timesOf ⟨buckets, now, s.admitted ++ more⟩ peerId =
      s.timesOf peerId ++ (more.filter fun a => a.1 = peerId).map fun a => seconds a.2 := by
  simp [RateLimiter.timesOf]

/-! ## The calls -/

theorem allow_eq (hrate : 0 < config.refillRate) {buckets : Buckets} {created : ℤ}
    (hbucket : ∀ bucket ∈ buckets.get peerId,
      bucket.tokens ≤ config.maxTokens ∧ bucket.lastRefill ≤ now) (hcreated : created ≤ now) :
    allow config buckets peerId created now =
      if 1 ≤ levelAt config now (buckets.get peerId) then
        (true, buckets.set peerId ⟨levelAt config now (buckets.get peerId) - 1, now⟩)
      else (false, buckets.set peerId ⟨levelAt config now (buckets.get peerId), now⟩) := by
  unfold allow
  rw [getOrCreateBucket_refill hrate hbucket hcreated]

theorem allow_get_of_ne {buckets : Buckets} {other : String} (hother : peerId ≠ other)
    (created now : ℤ) :
    (allow config buckets other created now).2.get peerId = buckets.get peerId := by
  unfold allow
  dsimp only
  split <;> exact InsertionMap.get_set_of_ne _ _ hother

theorem remaining_get_of_ne {buckets : Buckets} {other : String} (hother : peerId ≠ other)
    (now : ℤ) : (remaining config buckets other now).2.get peerId = buckets.get peerId := by
  unfold remaining
  split
  · rfl
  · exact InsertionMap.get_set_of_ne _ _ hother

/-- A call about another peer leaves the bucket and answers the other peer. -/
theorem run_of_not_concerns (config : RateLimitConfig) (buckets : Buckets) {call : LimiterCall}
    (hcall : call.concerns peerId = false) :
    (call.run config buckets).2.get peerId = buckets.get peerId ∧
      ∀ answer ∈ (call.run config buckets).1, answer.1 ≠ peerId := by
  cases call with
  | allow other created now =>
      have hother : other ≠ peerId := of_decide_eq_false hcall
      exact ⟨allow_get_of_ne hother.symm created now,
        fun answer hanswer => Option.some.inj hanswer ▸ hother⟩
  | remaining other now =>
      have hother : other ≠ peerId := of_decide_eq_false hcall
      exact ⟨remaining_get_of_ne hother.symm now,
        fun answer hanswer => Option.some.inj hanswer ▸ hother⟩
  | removePeer other =>
      have hother : other ≠ peerId := of_decide_eq_false hcall
      exact ⟨InsertionMap.get_delete_of_ne _ hother.symm, fun _ hanswer => (nomatch hanswer)⟩
  | cleanup now => cases hcall

theorem PeerAccount.allow (h : PeerAccount config peerId s) (hrate : 0 < config.refillRate)
    {created : ℤ} (hcreated : s.now ≤ created) (hnow : created ≤ now) :
    PeerAccount config peerId
      { buckets := (Mesh.allow config s.buckets peerId created now).2
        now := now
        admitted := s.admitted ++
          if (Mesh.allow config s.buckets peerId created now).1 then [(peerId, now)] else [] } := by
  have hlater := hcreated.trans hnow
  have haccount := h.wait hrate hlater
  have hlevel := levelAt_le config now (s.buckets.get peerId)
  have heq := allow_eq hrate (fun bucket hbucket =>
    (h.bucket bucket hbucket).imp_right fun hlast => hlast.trans hlater) hnow
  by_cases hone : 1 ≤ levelAt config now (s.buckets.get peerId)
  · rw [heq, if_pos hone]
    refine peerAccount_of_refilled ((sub_le_self _ zero_le_one).trans hlevel)
      (InsertionMap.get_set_self _ _ _) ?_
    rw [timesOf_append]
    simpa using haccount.admit hrate.le hone
  · rw [heq, if_neg hone]
    refine peerAccount_of_refilled hlevel (InsertionMap.get_set_self _ _ _) ?_
    rw [timesOf_append]
    simpa using haccount

theorem PeerAccount.remaining (h : PeerAccount config peerId s) (hrate : 0 < config.refillRate)
    (hnow : s.now ≤ now) :
    PeerAccount config peerId
      { s with buckets := (Mesh.remaining config s.buckets peerId now).2, now := now } := by
  unfold Mesh.remaining
  cases hget : s.buckets.get peerId with
  | none => exact h.frame hrate hnow rfl rfl
  | some bucket =>
      obtain ⟨htokens, hlast⟩ := h.bucket bucket hget
      have haccount := h.wait hrate hnow
      rw [hget] at haccount
      dsimp only
      rw [refill_eq hrate htokens (hlast.trans hnow)]
      exact peerAccount_of_refilled (levelAt_le _ _ _) (InsertionMap.get_set_self _ _ _) haccount

/-- A clean-up leaves the bucket or finds it full. -/
theorem PeerAccount.cleanup (h : PeerAccount config peerId s) (hrate : 0 < config.refillRate)
    (hnow : s.now ≤ now) (hfull : FullAtCleanup config peerId s (.cleanup now)) :
    PeerAccount config peerId { s with buckets := Mesh.cleanup s.buckets now, now := now } := by
  have hget : (Mesh.cleanup s.buckets now).get peerId = (s.buckets.get peerId).filter
      fun bucket => ¬ bucket.lastRefill < now - 10 * 60000 := InsertionMap.get_filter _ _ _
  cases hbucket : s.buckets.get peerId with
  | none =>
      rw [hbucket] at hget
      exact h.frame hrate hnow (hget.trans hbucket.symm) rfl
  | some bucket =>
      rw [hbucket] at hget
      by_cases hold : bucket.lastRefill < now - 10 * 60000
      · have hlevel := hfull bucket hbucket hold
        have haccount := h.wait hrate hnow
        rw [hbucket, levelAt, min_eq_left hlevel] at haccount
        simp only [Option.filter_some, hold] at hget
        refine ⟨?_, fun other hother => ?_⟩
        · rw [hget]
          exact haccount
        · rw [hget] at hother
          cases hother
      · simp only [Option.filter_some, hold] at hget
        exact h.frame hrate hnow (hget.trans hbucket.symm) rfl

/-- The answer to another peer admits nothing of this one. -/
theorem admittedBy_filter {answer : Option (String × LimiterAnswer)}
    (hanswer : ∀ a ∈ answer, a.1 ≠ peerId) (now : ℤ) :
    (admittedBy now answer).filter (fun a => a.1 = peerId) = [] := by
  unfold admittedBy
  split
  · have hother := hanswer _ rfl
    simp [hother]
  all_goals rfl

theorem PeerAccount.step (h : PeerAccount config peerId s) (hrate : 0 < config.refillRate)
    {start : ℤ} {call : LimiterCall} (hfull : FullAtCleanup config peerId s call)
    (hstep : (limiterMachine config start).step s call = some s') :
    PeerAccount config peerId s' := by
  obtain ⟨hafter, rfl⟩ := Option.ite_none_right_eq_some.mp hstep |>.imp id Option.some.inj
  -- a call about another peer leaves the bucket and the times alone
  by_cases hcall : call.concerns peerId = true
  · cases call with
    | allow other created now =>
        obtain rfl : other = peerId := of_decide_eq_true hcall
        have hallow := h.allow hrate hafter.1 hafter.2
        rw [RateLimiter.after]
        dsimp only [LimiterCall.run, LimiterCall.time]
        cases hanswer : (Mesh.allow config s.buckets other created now).1 with
        | true => rw [hanswer] at hallow; exact hallow
        | false => rw [hanswer] at hallow; exact hallow
    | remaining other now =>
        obtain rfl : other = peerId := of_decide_eq_true hcall
        have hremaining := h.remaining hrate hafter
        simp only [RateLimiter.after, LimiterCall.run, LimiterCall.time, admittedBy,
          List.append_nil]
        exact hremaining
    -- a removed bucket would start full again, which the condition excludes
    | removePeer other => exact absurd (of_decide_eq_true hcall) hfull
    | cleanup now =>
        simp only [RateLimiter.after, LimiterCall.run, LimiterCall.time, admittedBy,
          List.append_nil]
        exact h.cleanup hrate hafter hfull
  · obtain ⟨hget, hother⟩ := run_of_not_concerns config s.buckets
      (Bool.eq_false_of_not_eq_true hcall)
    refine h.frame hrate ?_ hget ?_
    · cases call with
      | allow other created now => exact hafter.1.trans hafter.2
      | remaining other now => exact hafter
      | removePeer other => exact le_rfl
      | cleanup now => exact hafter
    · rw [RateLimiter.after, timesOf_append, admittedBy_filter hother, List.map_nil, List.append_nil]

theorem peerAccount_of_reachable (hmax : 0 < config.maxTokens) (hrate : 0 < config.refillRate)
    {start : ℤ} (h : (limiterMachine config start).ReachableUnder (FullAtCleanup config peerId) s) :
    PeerAccount config peerId s := by
  refine h.invariant ?_ fun _ _ _ hs hfull hstep => hs.step hrate hfull hstep
  exact ⟨account_nil hrate.le hmax.le le_rfl _, fun _ hbucket => (nomatch hbucket)⟩

/-! ## One peer -/

theorem allow_congr (config : RateLimitConfig) {buckets buckets' : Buckets}
    (hget : buckets.get peerId = buckets'.get peerId) (created now : ℤ) :
    (allow config buckets peerId created now).1 = (allow config buckets' peerId created now).1 ∧
      (allow config buckets peerId created now).2.get peerId =
        (allow config buckets' peerId created now).2.get peerId := by
  have hbucket : getOrCreateBucket config buckets peerId created =
      getOrCreateBucket config buckets' peerId created := by
    simp only [getOrCreateBucket, hget]
  unfold allow
  rw [hbucket]
  dsimp only
  split <;> exact ⟨rfl, by rw [InsertionMap.get_set_self, InsertionMap.get_set_self]⟩

/-- A call about the peer depends on its bucket only. -/
theorem run_of_concerns (config : RateLimitConfig) {buckets buckets' : Buckets} {call : LimiterCall}
    (hcall : call.concerns peerId = true) (hget : buckets.get peerId = buckets'.get peerId) :
    (call.run config buckets).1 = (call.run config buckets').1 ∧
      (call.run config buckets).2.get peerId = (call.run config buckets').2.get peerId := by
  cases call with
  | allow other created now =>
      obtain rfl : other = peerId := of_decide_eq_true hcall
      obtain ⟨hanswer, hafter⟩ := allow_congr config hget created now
      refine ⟨?_, hafter⟩
      simp only [LimiterCall.run, hanswer]
  | remaining other now =>
      obtain rfl : other = peerId := of_decide_eq_true hcall
      simp only [LimiterCall.run, remaining, hget]
      cases hbucket : buckets'.get other with
      | none => exact ⟨rfl, hget.trans rfl⟩
      | some bucket => exact ⟨rfl, by rw [InsertionMap.get_set_self, InsertionMap.get_set_self]⟩
  | removePeer other =>
      obtain rfl : other = peerId := of_decide_eq_true hcall
      refine ⟨rfl, ?_⟩
      simp only [LimiterCall.run, removePeer, InsertionMap.get_delete_self]
  | cleanup now =>
      refine ⟨rfl, ?_⟩
      simp only [LimiterCall.run, cleanup, InsertionMap.get_filter, hget]

theorem answersFor_congr (calls : List LimiterCall) {buckets buckets' : Buckets}
    (hget : buckets.get peerId = buckets'.get peerId) :
    answersFor config peerId buckets calls =
      answersFor config peerId buckets' (calls.filter fun call => call.concerns peerId) := by
  induction calls generalizing buckets buckets' with
  | nil => rfl
  | cons call rest ih =>
      by_cases hcall : call.concerns peerId = true
      · obtain ⟨hanswer, hnext⟩ := run_of_concerns config hcall hget
        rw [List.filter_cons_of_pos hcall]
        simp only [answersFor]
        rw [hanswer, ih hnext]
      · obtain ⟨hsame, hother⟩ := run_of_not_concerns config buckets
          (Bool.eq_false_of_not_eq_true hcall)
        rw [List.filter_cons_of_neg hcall]
        simp only [answersFor]
        have hnone : ((call.run config buckets).1.toList.filter fun a => a.1 = peerId) = [] :=
          List.filter_eq_nil_iff.mpr fun a ha => by simpa using hother a (Option.mem_toList.mp ha)
        rw [ih (hsame.trans hget), hnone, List.map_nil, List.nil_append]

/-- Where clean-ups find the bucket of a peer full, the limiter bounds the requests of the peer in
every window; its answers to a peer never depend on other peers. -/
theorem rate_limiter_law (hmax : 0 < config.maxTokens) (hrate : 0 < config.refillRate) (start : ℤ)
    (peerId : String) :
    (∀ s, (limiterMachine config start).ReachableUnder (FullAtCleanup config peerId) s →
      ∀ a T : ℚ, 0 ≤ T →
        s.admittedIn peerId a (a + T) ≤ config.maxTokens + config.refillRate * T) ∧
    ∀ buckets calls, answersFor config peerId buckets calls =
      answersFor config peerId buckets (calls.filter fun call => call.concerns peerId) := by
  refine ⟨fun s hs a T hT => ?_, fun buckets calls => answersFor_congr calls rfl⟩
  have hwindow := (peerAccount_of_reachable hmax hrate hs).account.window a (a + T)
    (le_add_of_nonneg_right hT)
  rwa [add_sub_cancel_left] at hwindow

/-! ## Clean-ups that come late enough -/

/-- No bucket is overdrawn. -/
def NotOverdrawn (buckets : Buckets) : Prop :=
  ∀ peerId, ∀ bucket ∈ buckets.get peerId, 0 ≤ bucket.tokens

theorem refill_nonneg (hmax : 0 < config.maxTokens) (h : 0 ≤ bucket.tokens) (now : ℤ) :
    0 ≤ (bucket.refill config now).tokens := by
  unfold BucketState.refill
  dsimp only
  split
  case isTrue hmore => exact le_min hmax.le (add_nonneg h hmore.le)
  case isFalse => exact h

theorem NotOverdrawn.set {buckets : Buckets} (h : NotOverdrawn buckets) (hbucket : 0 ≤ bucket.tokens)
    (peerId : String) : NotOverdrawn (buckets.set peerId bucket) := by
  intro other b hb
  rw [Option.mem_def, InsertionMap.get_set] at hb
  split at hb
  · exact Option.some.inj hb ▸ hbucket
  · exact h other b hb

theorem NotOverdrawn.run (hmax : 0 < config.maxTokens) {buckets : Buckets} (h : NotOverdrawn buckets)
    (call : LimiterCall) : NotOverdrawn (call.run config buckets).2 := by
  cases call with
  | allow peerId created now =>
      have hbucket : 0 ≤ (getOrCreateBucket config buckets peerId created).tokens := by
        unfold getOrCreateBucket
        cases hget : buckets.get peerId with
        | none => exact hmax.le
        | some bucket => exact h peerId bucket hget
      simp only [LimiterCall.run, allow]
      split
      case isTrue hone => exact h.set (sub_nonneg.mpr hone) peerId
      case isFalse => exact h.set (refill_nonneg hmax hbucket now) peerId
  | remaining peerId now =>
      simp only [LimiterCall.run, remaining]
      cases hget : buckets.get peerId with
      | none => exact h
      | some bucket => exact h.set (refill_nonneg hmax (h peerId bucket hget) now) peerId
  | removePeer peerId => exact fun other b hb => h other b (InsertionMap.get_of_get_delete hb).2
  | cleanup now =>
      intro other b hb
      simp only [LimiterCall.run, cleanup, Option.mem_def, InsertionMap.get_filter] at hb
      exact h other b (Option.filter_eq_some_iff.mp hb).1

/-- If a bucket fills up in the ten minutes and a millisecond that a clean-up waits at least, every
clean-up finds it full. -/
theorem full_of_config (hmax : 0 < config.maxTokens) (hrate : 0 < config.refillRate)
    (hconfig : config.maxTokens ≤ config.refillRate * (600001 / 1000)) {start : ℤ}
    (hs : (limiterMachine config start).Reachable s) {call : LimiterCall}
    (hcall : ∀ other, call = .removePeer other → other ≠ peerId) :
    FullAtCleanup config peerId s call := by
  have hdrawn : NotOverdrawn s.buckets := by
    refine Machine.Reachable.invariant (I := fun s => NotOverdrawn s.buckets)
      (fun _ _ hb => by cases hb) (fun s call s' hs hstep => ?_) hs
    obtain ⟨-, rfl⟩ := Option.ite_none_right_eq_some.mp hstep |>.imp id Option.some.inj
    exact hs.run hmax call
  cases call with
  | allow | remaining => trivial
  | removePeer other => exact hcall other rfl
  | cleanup now =>
      intro bucket hbucket hold
      have hwait : (600001 : ℤ) ≤ now - bucket.lastRefill := by omega
      have hseconds : (600001 / 1000 : ℚ) ≤ seconds (now - bucket.lastRefill) := by
        have hmono := seconds_mono hwait
        exact le_trans (by norm_num [seconds]) hmono
      have htokens := hdrawn peerId bucket hbucket
      calc config.maxTokens ≤ config.refillRate * (600001 / 1000) := hconfig
        _ ≤ config.refillRate * seconds (now - bucket.lastRefill) :=
          mul_le_mul_of_nonneg_left hseconds hrate.le
        _ = seconds (now - bucket.lastRefill) * config.refillRate := mul_comm _ _
        _ ≤ bucket.tokens + seconds (now - bucket.lastRefill) * config.refillRate :=
          le_add_of_nonneg_left htokens

end Bound

/-! ## A slow bucket -/

/-- One request in a thousand seconds. -/
def slowLimit : RateLimitConfig where
  maxTokens := 1
  refillRate := 1 / 1000

/-- With the defaults, two requests and a clean-up. -/
theorem rate_limiter_law_default :
    ∃ s : RateLimiter, s.admitted = [("peer", 0), ("peer", 600001)] ∧
      s.admittedIn "peer" 0 (0 + 601) ≤ 20 + (2 : ℚ) * 601 := by
  have hrun : ((limiterMachine {} 0).runFrom (limiterMachine {} 0).init
      [.allow "peer" 0 0, .cleanup 600001, .allow "peer" 600001 600001]).map
        (fun s => s.admitted) = some [("peer", 0), ("peer", 600001)] := by
    decide +kernel
  obtain ⟨s, hs, hadmitted⟩ := Option.map_eq_some_iff.mp hrun
  refine ⟨s, hadmitted, (rate_limiter_law (by decide +kernel) (by decide +kernel) 0 "peer").1 s
    (.runFrom .init ?_ hs) 0 601 (by norm_num)⟩
  decide +kernel

/-- A clean-up removes the bucket before it is full, and the next request is admitted at once. -/
theorem cleanup_refills :
    ∃ s : RateLimiter, (limiterMachine slowLimit 0).Reachable s ∧
      (slowLimit.maxTokens + slowLimit.refillRate * 601 : ℚ) < s.admittedIn "peer" 0 (0 + 601) := by
  have hrun : ((limiterMachine slowLimit 0).runFrom (limiterMachine slowLimit 0).init
      [.allow "peer" 0 0, .cleanup 600001, .allow "peer" 600001 600001]).map
        (fun s => s.admitted) = some [("peer", 0), ("peer", 600001)] := by
    decide +kernel
  obtain ⟨s, hs, hadmitted⟩ := Option.map_eq_some_iff.mp hrun
  refine ⟨s, Machine.reachable_of_runFrom hs, ?_⟩
  rw [RateLimiter.admittedIn, RateLimiter.timesOf, hadmitted]
  decide +kernel

end ThinkLocal.Mesh
