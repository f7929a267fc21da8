import ThinkLocal.Onboarding.TokenApi

/-!
# Tokens are used once

Tokens are created, revoked and deleted, and nodes join, in any order and at any readings of the
clock.  The certificates are judged by the journal of what happened, newest first: a certificate
is given out for a token that has been neither used nor revoked since it was created and that has
not expired.
-/

namespace ThinkLocal.Onboarding

open Js Pairing

inductive TokenCall
  | createToken (name createdBy : String) (ttlMs now : Int) (random : String × String)
  | revokeToken (tokenId : String) (now : Int)
  | pruneExpired (now : Int)
  | join (env : JoinEnv) (request : JoinRequest)

inductive TokenEvent
  | created (id : String) (expires_at : Int)
  | revoked (id : String)
  /-- A certificate for the token of a request, at the reading that the token was validated at. -/
  | issued (id : Option String) (now : Int)

variable (deps : TokenApiDeps)

/-- The id of the token that a request carries. -/
def tokenOf (tokens : TokenStore) (request : JoinRequest) : Option String :=
  (bearerToken request.authorization).bind fun rawToken =>
    (tokens.findByHash (deps.sha256Hex rawToken)).map OnboardingTokenRow.id

/-- A call that throws changes nothing. -/
def applyCall (s : Stores) : TokenCall → Stores
  | .createToken name createdBy ttlMs now random =>
      match s.tokens.createToken deps.sha256Hex name createdBy ttlMs now random with
      | .ok (tokens, _) => { s with tokens }
      | .error _ => s
  | .revokeToken tokenId now =>
      match s.tokens.revokeToken tokenId now with
      | .ok (tokens, _) => { s with tokens }
      | .error _ => s
  | .pruneExpired now =>
      match s.tokens.pruneExpired now with
      | .ok (tokens, _) => { s with tokens }
      | .error _ => s
  | .join env request => (join deps s env request).1

/-- What a call adds to the journal. -/
def record (s : Stores) : TokenCall → List TokenEvent
  | .createToken name createdBy ttlMs now random =>
      match s.tokens.createToken deps.sha256Hex name createdBy ttlMs now random with
      | .ok (_, result) => [.created result.id result.expiresAt]
      | .error _ => []
  | .revokeToken tokenId now =>
      match s.tokens.revokeToken tokenId now with
      | .ok (_, true) => [.revoked tokenId]
      | _ => []
  | .pruneExpired _ => []
  | .join env request =>
      match (join deps s env request).2 with
      | .certificate _ => [.issued (tokenOf deps s.tokens request) env.validatedAt]
      | _ => []

/-- The stores and the journal after calls from an empty table on. -/
def runCalls (pairing : PairingStore) (calls : List TokenCall) : Stores × List TokenEvent :=
  calls.foldl (fun run call => (applyCall deps run.1 call, record deps run.1 call ++ run.2))
    (⟨.empty, pairing⟩, [])

/-! ## What a journal says -/

/-- The token that an event is about. -/
def TokenEvent.token : TokenEvent → Option String
  | created id _ => some id
  | revoked id => some id
  | issued id _ => id

/-- The token was created, and nothing has happened to it since then. -/
def Fresh (journal : List TokenEvent) (id : String) (expires_at : Int) : Prop :=
  ∃ since earlier, journal = since ++ .created id expires_at :: earlier ∧
    ∀ event ∈ since, event.token ≠ some id

/-- Every certificate was given out for a fresh token before its expiry. -/
def Justified : List TokenEvent → Prop
  | [] => True
  | .issued id now :: earlier =>
      (∃ tokenId expires_at, id = some tokenId ∧ Fresh earlier tokenId expires_at ∧
        now ≤ expires_at) ∧ Justified earlier
  | _ :: earlier => Justified earlier

def TokenEvent.creates (tokenId : String) : TokenEvent → Bool
  | created id _ => id = tokenId
  | _ => false

def TokenEvent.issues (tokenId : String) : TokenEvent → Bool
  | issued id _ => id = some tokenId
  | _ => false

variable {journal earlier : List TokenEvent} {tokenId : String}

theorem Justified.of_append {since : List TokenEvent} (h : Justified (since ++ earlier)) :
    Justified earlier := by
  induction since with
  | nil => exact h
  | cons event rest ih =>
      cases event with
      | created | revoked => exact ih h
      | issued => exact ih h.2

/-- A certificate for a fresh token does not use up more than the creation of the token. -/
theorem Fresh.issues_lt_creates {expires_at : Int} (h : Fresh journal tokenId expires_at)
    (hle : ∀ since earlier, journal = since ++ earlier → earlier.countP (TokenEvent.issues tokenId) ≤
      earlier.countP (TokenEvent.creates tokenId)) :
    journal.countP (TokenEvent.issues tokenId) < journal.countP (TokenEvent.creates tokenId) := by
  obtain ⟨since, earlier, rfl, hunused⟩ := h
  have hnone : since.countP (TokenEvent.issues tokenId) = 0 := by
    rw [List.countP_eq_zero]
    intro event hevent hissues
    cases event with
    | created | revoked => cases hissues
    | issued id now =>
        have hid : id = some tokenId := of_decide_eq_true hissues
        exact hunused _ hevent hid
  have hissued : (TokenEvent.created tokenId expires_at).issues tokenId = false := rfl
  have hcreated : (TokenEvent.created tokenId expires_at).creates tokenId = true :=
    decide_eq_true rfl
  have hearlier := hle (since ++ [.created tokenId expires_at]) earlier (by simp)
  rw [List.countP_append, List.countP_append, hnone, List.countP_cons_of_neg (by simp [hissued]),
    List.countP_cons_of_pos hcreated]
  omega

/-- There are no more certificates for an id than tokens with it. -/
theorem Justified.issues_le_creates (h : Justified journal) (tokenId : String) :
    journal.countP (TokenEvent.issues tokenId) ≤ journal.countP (TokenEvent.creates tokenId) := by
  -- The count is compared at every earlier time, too.
  suffices hall : ∀ since earlier, journal = since ++ earlier →
      earlier.countP (TokenEvent.issues tokenId) ≤ earlier.countP (TokenEvent.creates tokenId) from
    hall [] journal rfl
  induction journal with
  | nil =>
      intro since earlier hsplit
      obtain ⟨-, rfl⟩ := List.nil_eq_append_iff.mp hsplit
      exact le_rfl
  | cons event rest ih =>
      have hrest : Justified rest := Justified.of_append (show Justified ([event] ++ rest) from h)
      intro since earlier hsplit
      cases since with
      | cons first since =>
          rw [List.cons_append, List.cons.injEq] at hsplit
          exact ih hrest since earlier hsplit.2
      | nil =>
          obtain rfl : event :: rest = earlier := hsplit
          have hle := ih hrest [] rest rfl
          cases event with
          | created id expires_at => exact hle.trans (List.sublist_cons_self _ _).countP_le
          | revoked id => exact hle
          | issued id now =>
              by_cases hid : id = some tokenId
              · obtain ⟨⟨token, expires_at, htoken, hfresh, -⟩, -⟩ := h
                obtain rfl := Option.some.inj (hid.symm.trans htoken)
                -- the token is fresh: one creation has no certificate yet
                have hlt := hfresh.issues_lt_creates (ih hrest)
                have hissues : (TokenEvent.issued id now).issues tokenId = true :=
                  decide_eq_true hid
                rw [List.countP_cons_of_pos hissues]
                exact hlt
              · rw [List.countP_cons_of_neg (by simpa [TokenEvent.issues] using hid)]
                exact hle

/-! ## One call -/

variable {deps} {s : Stores} {env : JoinEnv} {request : JoinRequest}

theorem issue_tokens {ip : String} {caBundle : CaBundle} {body : JoinBody} :
    (issue deps s env ip caBundle body).1.tokens = s.tokens ∧
      (issue deps s env ip caBundle body).2.refused = false := by
  unfold issue
  split
  case h_1 => exact ⟨rfl, rfl⟩
  case h_2 =>
    split
    case h_1 => exact ⟨rfl, rfl⟩
    case h_2 =>
      dsimp only
      split <;> exact ⟨rfl, rfl⟩

/-- A request leaves the tokens alone, or it consumes the token that it carries, which is neither
used nor revoked nor expired. -/
theorem join_cases (deps : TokenApiDeps) (s : Stores) (env : JoinEnv) (request : JoinRequest) :
    ((join deps s env request).2.refused = true ∧
        (join deps s env request).1.tokens = s.tokens) ∨
      (join deps s env request).2.refused = false ∧ ∃ row ∈ s.tokens.rows, ∃ used_by,
        tokenOf deps s.tokens request = some row.id ∧ row.used_at = none ∧
          row.revoked_at = none ∧ env.validatedAt ≤ row.expires_at ∧
          (join deps s env request).1.tokens.rows = s.tokens.rows.map fun other =>
            if other.id = row.id then
              { other with used_at := some env.usedAt, used_by := some used_by }
            else other := by
  unfold join tokenOf
  cases bearerToken request.authorization with
  | none => exact .inl ⟨rfl, rfl⟩
  | some rawToken =>
      dsimp only
      split
      case isTrue => exact .inl ⟨rfl, rfl⟩
      case isFalse =>
        split
        case h_1 =>
          split <;> exact .inl ⟨rfl, rfl⟩
        case h_2 tokenId name hvalid =>
          obtain ⟨-, row, hfind, hrevoked, hused, hexpires, rfl, -⟩ :=
            TokenStore.validateToken_eq_valid.mp hvalid
          unfold consume
          split
          case h_1 answer hbody => exact .inl ⟨checkBody_eq_error hbody, rfl⟩
          case h_2 =>
            split
            case h_1 => exact .inl ⟨rfl, rfl⟩
            case h_2 =>
              split
              case h_1 => exact .inl ⟨rfl, rfl⟩
              -- from here on the token is consumed, whatever the rest of the handler answers
              case h_2 tokens hmarked =>
                obtain ⟨used_by, hrows⟩ := TokenStore.markUsed_eq_ok hmarked
                refine .inr ⟨issue_tokens.2, row, List.mem_of_find?_eq_some hfind, used_by, ?_,
                  hused, hrevoked, hexpires, ?_⟩
                · rw [Option.bind_some, hfind, Option.map_some]
                · rw [issue_tokens.1]
                  exact hrows

/-- Every unused row is fresh, and every certificate was justified. -/
structure Kept (s : Stores) (journal : List TokenEvent) : Prop where
  fresh : ∀ row ∈ s.tokens.rows, row.used_at = none → row.revoked_at = none →
    Fresh journal row.id row.expires_at
  justified : Justified journal

/-- An event about another token. -/
theorem Fresh.cons {expires_at : Int} (h : Fresh journal tokenId expires_at) {event : TokenEvent}
    (hevent : event.token ≠ some tokenId) : Fresh (event :: journal) tokenId expires_at := by
  obtain ⟨since, earlier, rfl, hsince⟩ := h
  exact ⟨event :: since, earlier, rfl, List.forall_mem_cons.mpr ⟨hevent, hsince⟩⟩

theorem kept_createToken (h : Kept s journal) (name createdBy : String) (ttlMs now : Int)
    (random : String × String) :
    Kept (applyCall deps s (.createToken name createdBy ttlMs now random))
      (record deps s (.createToken name createdBy ttlMs now random) ++ journal) := by
  dsimp only [applyCall, record]
  split
  case h_2 => exact h
  case h_1 tokens result hok =>
    obtain ⟨row, hinsert, hid, hexpires⟩ := TokenStore.createToken_eq_ok hok
    obtain ⟨hnew, hrows⟩ := TokenStore.insert_eq_ok hinsert
    refine ⟨?_, h.justified⟩
    intro other hother hused hrevoked
    rw [hrows] at hother
    rcases List.mem_append.mp hother with hold | hlast
    -- an id that is in the table is not drawn again
    · refine (h.fresh other hold hused hrevoked).cons ?_
      intro hsame
      refine hnew (List.mem_map.mpr ⟨other, hold, ?_⟩)
      rw [hid]
      exact (Option.some.inj hsame).symm
    · obtain rfl := List.mem_singleton.mp hlast
      rw [hid, hexpires]
      exact ⟨[], journal, rfl, List.forall_mem_nil _⟩

theorem kept_revokeToken (h : Kept s journal) (tokenId : String) (now : Int) :
    Kept (applyCall deps s (.revokeToken tokenId now))
      (record deps s (.revokeToken tokenId now) ++ journal) := by
  dsimp only [applyCall, record]
  split
  case h_2 herror =>
    rw [herror]
    exact h
  case h_1 tokens revoked hok =>
    rw [hok]
    rcases TokenStore.revokeToken_eq_ok hok with ⟨rfl, rfl⟩ | ⟨rfl, hrows⟩
    · exact h
    · refine ⟨?_, h.justified⟩
      intro row hrow hused hrevoked
      rw [hrows] at hrow
      obtain ⟨old, hold, hrow⟩ := List.mem_map.mp hrow
      by_cases hid : old.id = tokenId
      · -- The revoked row itself.
        rw [if_pos hid] at hrow
        rw [← hrow] at hrevoked
        cases hrevoked
      · rw [if_neg hid] at hrow
        obtain rfl := hrow
        exact (h.fresh old hold hused hrevoked).cons fun hsame => hid (Option.some.inj hsame).symm

theorem kept_pruneExpired (h : Kept s journal) (now : Int) :
    Kept (applyCall deps s (.pruneExpired now)) journal := by
  dsimp only [applyCall]
  split
  case h_2 => exact h
  case h_1 tokens pruned hok =>
    obtain ⟨text, hrows⟩ := TokenStore.pruneExpired_eq_ok hok
    refine ⟨?_, h.justified⟩
    intro row hrow
    rw [hrows] at hrow
    exact h.fresh row (List.mem_filter.mp hrow).1

theorem kept_join (h : Kept s journal) (env : JoinEnv) (request : JoinRequest) :
    Kept (applyCall deps s (.join env request)) (record deps s (.join env request) ++ journal) := by
  rcases join_cases deps s env request with ⟨hrefused, htokens⟩ |
    ⟨-, row, hrow, used_by, htoken, hused, hrevoked, hexpires, hrows⟩
  · have hnone : record deps s (.join env request) = [] := by
      dsimp only [record]
      split
      case h_1 hcertificate =>
        rw [hcertificate] at hrefused
        cases hrefused
      case h_2 => rfl
    rw [hnone]
    refine ⟨?_, h.justified⟩
    intro row hrow
    rw [applyCall, htokens] at hrow
    exact h.fresh row hrow
  -- what is unused afterwards is the row of another token
  · have hother : ∀ other ∈ (applyCall deps s (.join env request)).tokens.rows,
        other.used_at = none → other ∈ s.tokens.rows ∧ other.id ≠ row.id := by
      intro other hmem hunused
      rw [applyCall, hrows] at hmem
      obtain ⟨old, hold, hmem⟩ := List.mem_map.mp hmem
      by_cases hid : old.id = row.id
      · rw [if_pos hid] at hmem
        rw [← hmem] at hunused
        cases hunused
      · rw [if_neg hid] at hmem
        obtain rfl := hmem
        exact ⟨hold, hid⟩
    dsimp only [record]
    split
    case h_2 =>
      refine ⟨?_, h.justified⟩
      intro other hmem hunused hunrevoked
      exact h.fresh other (hother other hmem hunused).1 hunused hunrevoked
    case h_1 =>
      rw [htoken]
      refine ⟨?_, ⟨row.id, row.expires_at, rfl, h.fresh row hrow hused hrevoked, hexpires⟩,
        h.justified⟩
      intro other hmem hunused hunrevoked
      obtain ⟨hold, hid⟩ := hother other hmem hunused
      exact (h.fresh other hold hunused hunrevoked).cons fun hsame => hid (Option.some.inj hsame).symm

theorem kept_applyCall (h : Kept s journal) (call : TokenCall) :
    Kept (applyCall deps s call) (record deps s call ++ journal) := by
  cases call with
  | createToken name createdBy ttlMs now random =>
      exact kept_createToken h name createdBy ttlMs now random
  | revokeToken tokenId now => exact kept_revokeToken h tokenId now
  | pruneExpired now => exact kept_pruneExpired h now
  | join env request => exact kept_join h env request

/-! ## All calls -/

theorem kept_foldl (calls : List TokenCall) {run : Stores × List TokenEvent}
    (h : Kept run.1 run.2) :
    Kept (calls.foldl (fun run call => (applyCall deps run.1 call,
        record deps run.1 call ++ run.2)) run).1
      (calls.foldl (fun run call => (applyCall deps run.1 call,
        record deps run.1 call ++ run.2)) run).2 := by
  induction calls generalizing run with
  | nil => exact h
  | cons call rest ih => exact ih (kept_applyCall h call)

/-- In every run a certificate is given out only for a token that has been neither used nor revoked
since it was created and has not expired, so at most once; a request that is refused before it
consumes the token leaves the tokens as they are, and a deletion makes no token valid. -/
theorem onboarding_tokens_single_use (deps : TokenApiDeps) (pairing : PairingStore)
    (calls : List TokenCall) :
    Justified (runCalls deps pairing calls).2 ∧
      (∀ tokenId, (runCalls deps pairing calls).2.countP (TokenEvent.issues tokenId) ≤
        (runCalls deps pairing calls).2.countP (TokenEvent.creates tokenId)) ∧
      (∀ env request,
        (join deps (runCalls deps pairing calls).1 env request).2.refused = true →
          (join deps (runCalls deps pairing calls).1 env request).1.tokens =
            (runCalls deps pairing calls).1.tokens) ∧
      ∀ pruned rawToken now tokenId name,
        (applyCall deps (runCalls deps pairing calls).1 (.pruneExpired pruned)).tokens.validateToken
            deps.sha256Hex rawToken now = .valid tokenId name →
          (runCalls deps pairing calls).1.tokens.validateToken deps.sha256Hex rawToken now =
            .valid tokenId name := by
  have hempty : Kept ⟨.empty, pairing⟩ [] := ⟨List.forall_mem_nil _, trivial⟩
  have hkept : Kept (runCalls deps pairing calls).1 (runCalls deps pairing calls).2 :=
    kept_foldl calls hempty
  refine ⟨hkept.justified, hkept.justified.issues_le_creates, ?_, ?_⟩
  · intro env request hrefused
    rcases join_cases deps (runCalls deps pairing calls).1 env request with ⟨-, htokens⟩ |
      ⟨hconsumed, -⟩
    · exact htokens
    · cases hrefused.symm.trans hconsumed
  · intro time rawToken now tokenId name hvalid
    dsimp only [applyCall] at hvalid
    split at hvalid
    case h_2 => exact hvalid
    case h_1 hok => exact TokenStore.validateToken_of_pruneExpired hok hvalid

end ThinkLocal.Onboarding
