import ThinkLocal.Foundation.Except
import ThinkLocal.Js.Data
import ThinkLocal.Js.Date
import ThinkLocal.Js.Text

/-!
# The store of onboarding tokens

`token-store.ts`.  A token is known by its hash and dealt with by its id; both are unique in
the table.  A row is deleted only once its token has been used.  Instants stand for the ISO
texts of the table, and a call that throws has no result.
-/

namespace ThinkLocal.Onboarding

open Foundation Js

def TOKEN_PREFIX : String := "tlmcp_"

/-- Seven days. -/
def MAX_TTL_MS : Int := 604800000

/-- Five minutes. -/
def MIN_TTL_MS : Int := 300000

structure OnboardingTokenRow where
  id : String
  name : String
  token_hash : String
  created_at : Int
  expires_at : Int
  used_at : Option Int
  used_by : Option String
  revoked_at : Option Int
  created_by : String
deriving DecidableEq

inductive TokenRejection
  | not_found
  | expired
  | already_used
  | revoked
deriving DecidableEq

def TokenRejection.text : TokenRejection → String
  | not_found => "not_found"
  | expired => "expired"
  | already_used => "already_used"
  | revoked => "revoked"

inductive TokenValidationResult
  | valid (tokenId name : String)
  | invalid (reason : TokenRejection)
deriving DecidableEq

/-- The table with its primary key and its unique column. -/
structure TokenStore where
  rows : List OnboardingTokenRow
  ids : (rows.map OnboardingTokenRow.id).Nodup
  hashes : (rows.map OnboardingTokenRow.token_hash).Nodup

namespace TokenStore

def empty : TokenStore := ⟨[], List.nodup_nil, List.nodup_nil⟩

variable (sha256Hex : String → String)

def findByHash (store : TokenStore) (tokenHash : String) : Option OnboardingTokenRow :=
  store.rows.find? fun row => row.token_hash = tokenHash

def findById (store : TokenStore) (tokenId : String) : Option OnboardingTokenRow :=
  store.rows.find? fun row => row.id = tokenId

/-- `INSERT`: a second row with an id or a hash throws. -/
def insert (store : TokenStore) (row : OnboardingTokenRow) : Except String TokenStore :=
  if hid : row.id ∈ store.rows.map OnboardingTokenRow.id then
    .error "UNIQUE constraint failed: onboarding_tokens.id"
  else if hhash : row.token_hash ∈ store.rows.map OnboardingTokenRow.token_hash then
    .error "UNIQUE constraint failed: onboarding_tokens.token_hash"
  else
    .ok
      { rows := store.rows ++ [row]
        ids := by
          rw [List.map_append]
          exact store.ids.append (List.nodup_singleton _) (by simpa using hid)
        hashes := by
          rw [List.map_append]
          exact store.hashes.append (List.nodup_singleton _) (by simpa using hhash) }

/-- `UPDATE ... WHERE id = ?` of columns that are not unique. -/
def update (store : TokenStore) (tokenId : String) (change : OnboardingTokenRow → OnboardingTokenRow)
    (hid : ∀ row, (change row).id = row.id)
    (hhash : ∀ row, (change row).token_hash = row.token_hash) : TokenStore where
  rows := store.rows.map fun row => if row.id = tokenId then change row else row
  ids := by
    have hids : (OnboardingTokenRow.id ∘ fun row => if row.id = tokenId then change row else row) =
        OnboardingTokenRow.id := by
      funext row
      rw [Function.comp_apply]
      split
      · exact hid row
      · rfl
    rw [List.map_map, hids]
    exact store.ids
  hashes := by
    have hhashes : (OnboardingTokenRow.token_hash ∘
        fun row => if row.id = tokenId then change row else row) =
          OnboardingTokenRow.token_hash := by
      funext row
      rw [Function.comp_apply]
      split
      · exact hhash row
      · rfl
    rw [List.map_map, hhashes]
    exact store.hashes

structure TokenCreateResult where
  token : String
  id : String
  name : String
  expiresAt : Int

/-- The time to live is in whole milliseconds, as the route rounds it.  `random` are the texts of
the bytes that are drawn for the token and for its id. -/
def createToken (store : TokenStore) (name createdBy : String) (ttlMs : Int) (now : Int)
    (random : String × String) : Except String (TokenStore × TokenCreateResult) :=
  if trim name = "" then .error "Token name must not be empty"
  else if 64 < Data.utf16Length name then .error "Token name must be 64 characters or less"
  else if ttlMs < MIN_TTL_MS then .error "TTL must be at least 5 minutes"
  else if MAX_TTL_MS < ttlMs then .error "TTL must be at most 7 days"
  else
    let rawToken := TOKEN_PREFIX ++ random.1
    let id := random.2
    match toISOString now, toISOString (now + ttlMs) with
    | some _, some _ =>
        let row : OnboardingTokenRow :=
          { id, name := trim name, token_hash := sha256Hex rawToken, created_at := now
            expires_at := now + ttlMs, used_at := none, used_by := none, revoked_at := none
            created_by := createdBy }
        (store.insert row).map fun store => (store, ⟨rawToken, id, trim name, now + ttlMs⟩)
    | _, _ => .error "Invalid time value"

def validateToken (store : TokenStore) (rawToken : String) (now : Int) : TokenValidationResult :=
  if ¬ TOKEN_PREFIX.toList <+: rawToken.toList then .invalid .not_found
  else
    match store.findByHash (sha256Hex rawToken) with
    | none => .invalid .not_found
    | some row =>
        -- The action of an admin comes first.
        if row.revoked_at.isSome then .invalid .revoked
        else if row.used_at.isSome then .invalid .already_used
        else if row.expires_at < now then .invalid .expired
        else .valid row.id row.name

/-- `usedBy` is the cell that the driver makes of the argument, if it takes it. -/
def markUsed (store : TokenStore) (tokenId : String) (usedBy : Option String) (now : Int) :
    Except String TokenStore :=
  match store.findById tokenId with
  | none => .error ("Token not found: " ++ tokenId)
  | some row =>
      if row.used_at.isSome then .error ("Token already used: " ++ tokenId)
      else
        match toISOString now, usedBy with
        | none, _ => .error "Invalid time value"
        | some _, none => .error "SQLite3 can only bind numbers, strings, bigints, buffers, and null"
        | some _, some usedBy =>
            .ok (store.update tokenId
              (fun row => { row with used_at := some now, used_by := some usedBy })
              (fun _ => rfl) fun _ => rfl)

/-- The result is whether the token was revoked. -/
def revokeToken (store : TokenStore) (tokenId : String) (now : Int) :
    Except String (TokenStore × Bool) :=
  match store.findById tokenId with
  | none => .ok (store, false)
  | some row =>
      if row.revoked_at.isSome || row.used_at.isSome then .ok (store, false)
      else
        match toISOString now with
        | none => .error "Invalid time value"
        | some _ =>
            .ok (store.update tokenId (fun row => { row with revoked_at := some now })
              (fun _ => rfl) fun _ => rfl, true)

/-- The rows that stay: the texts of the instants are compared. -/
def unpruned (now : List Char) (row : OnboardingTokenRow) : Bool :=
  ! (textBefore ((toISOString row.expires_at).getD []) now && row.used_at.isSome)

/-- The result is the number of deleted rows. -/
def pruneExpired (store : TokenStore) (now : Int) : Except String (TokenStore × Nat) :=
  match toISOString now with
  | none => .error "Invalid time value"
  | some now =>
      let kept : TokenStore :=
        { rows := store.rows.filter (unpruned now)
          ids := store.ids.sublist (List.filter_sublist.map _)
          hashes := store.hashes.sublist (List.filter_sublist.map _) }
      .ok (kept, store.rows.length - kept.rows.length)

/-! ## What the operations do -/

variable {sha256Hex} {store after : TokenStore} {row : OnboardingTokenRow} {tokenId name : String}
  {rawToken : String} {now : Int}

theorem insert_eq_ok (h : store.insert row = .ok after) :
    row.id ∉ store.rows.map OnboardingTokenRow.id ∧ after.rows = store.rows ++ [row] := by
  unfold insert at h
  split at h
  case isTrue => cases h
  case isFalse hid =>
    split at h
    case isTrue => cases h
    case isFalse => exact ⟨hid, by rw [← Except.ok.inj h]⟩

theorem createToken_eq_ok {createdBy : String} {ttlMs : Int} {random : String × String}
    {result : TokenCreateResult}
    (h : store.createToken sha256Hex name createdBy ttlMs now random = .ok (after, result)) :
    ∃ row, store.insert row = .ok after ∧ row.id = result.id ∧ row.expires_at = result.expiresAt := by
  unfold createToken at h
  split at h
  case isTrue => cases h
  split at h
  case isTrue => cases h
  split at h
  case isTrue => cases h
  split at h
  case isTrue => cases h
  case isFalse =>
    dsimp only at h
    split at h
    case h_2 => cases h
    case h_1 =>
      rw [Foundation.Except.map_eq_ok_iff] at h
      obtain ⟨inserted, hinsert, hpair⟩ := h
      obtain ⟨rfl, rfl⟩ := Prod.mk.inj hpair
      exact ⟨_, hinsert, rfl, rfl⟩

/-- A token is valid exactly if its row is there, neither used nor revoked, and not expired. -/
theorem validateToken_eq_valid :
    store.validateToken sha256Hex rawToken now = .valid tokenId name ↔
      TOKEN_PREFIX.toList <+: rawToken.toList ∧ ∃ row,
        store.findByHash (sha256Hex rawToken) = some row ∧ row.revoked_at = none ∧
          row.used_at = none ∧ now ≤ row.expires_at ∧ row.id = tokenId ∧ row.name = name := by
  unfold validateToken
  split
  case isTrue hstart => exact iff_of_false (fun h => by cases h) fun h => hstart h.1
  -- the checks in the order of the function
  case isFalse hstart =>
    rw [not_not] at hstart
    cases hfind : store.findByHash (sha256Hex rawToken) with
    | none => simp
    | some row =>
        cases hrevoked : row.revoked_at with
        | some revoked => simp [hrevoked]
        | none =>
            cases hused : row.used_at with
            | some used => simp [hrevoked, hused]
            | none =>
                by_cases hexpired : row.expires_at < now
                · simp [hrevoked, hused, hexpired]
                · simp [hrevoked, hused, hexpired, hstart, not_lt.mp hexpired]

theorem markUsed_eq_ok {usedBy : Option String}
    (h : store.markUsed tokenId usedBy now = .ok after) :
    ∃ used_by, after.rows = store.rows.map fun row =>
      if row.id = tokenId then { row with used_at := some now, used_by := some used_by }
      else row := by
  unfold markUsed at h
  split at h
  case h_1 => cases h
  case h_2 =>
    split at h
    case isTrue => cases h
    case isFalse =>
      split at h
      case h_1 => cases h
      case h_2 => cases h
      case h_3 used_by _ => exact ⟨used_by, by rw [← Except.ok.inj h]; rfl⟩

/-- A token is revoked at most once, and only before its use; otherwise nothing changes. -/
theorem revokeToken_eq_ok {revoked : Bool}
    (h : store.revokeToken tokenId now = .ok (after, revoked)) :
    revoked = false ∧ after = store ∨
      revoked = true ∧ after.rows = store.rows.map fun row =>
        if row.id = tokenId then { row with revoked_at := some now } else row := by
  unfold revokeToken at h
  split at h
  case h_1 =>
    obtain ⟨rfl, rfl⟩ := Prod.mk.inj (Except.ok.inj h)
    exact .inl ⟨rfl, rfl⟩
  case h_2 =>
    split at h
    case isTrue =>
      obtain ⟨rfl, rfl⟩ := Prod.mk.inj (Except.ok.inj h)
      exact .inl ⟨rfl, rfl⟩
    case isFalse =>
      split at h
      case h_1 => cases h
      case h_2 =>
        obtain ⟨rfl, rfl⟩ := Prod.mk.inj (Except.ok.inj h)
        exact .inr ⟨rfl, rfl⟩

theorem pruneExpired_eq_ok {pruned : Nat} (h : store.pruneExpired now = .ok (after, pruned)) :
    ∃ text, after.rows = store.rows.filter (unpruned text) := by
  unfold pruneExpired at h
  split at h
  case h_1 => cases h
  case h_2 text _ =>
    obtain ⟨rfl, -⟩ := Prod.mk.inj (Except.ok.inj h)
    exact ⟨text, rfl⟩

/-- What is valid after a deletion was valid before it. -/
theorem validateToken_of_pruneExpired {pruned : Nat} {time : Int}
    (h : store.pruneExpired time = .ok (after, pruned))
    (hvalid : after.validateToken sha256Hex rawToken now = .valid tokenId name) :
    store.validateToken sha256Hex rawToken now = .valid tokenId name := by
  obtain ⟨text, hrows⟩ := pruneExpired_eq_ok h
  obtain ⟨hstart, row, hfind, hrow⟩ := validateToken_eq_valid.mp hvalid
  refine validateToken_eq_valid.mpr ⟨hstart, row, ?_, hrow⟩
  have hhash : row.token_hash = sha256Hex rawToken := of_decide_eq_true (List.find?_some hfind :)
  have hmem : row ∈ store.rows := by
    have hkept := List.mem_of_find?_eq_some hfind
    rw [hrows] at hkept
    exact (List.mem_filter.mp hkept).1
  cases hbefore : store.findByHash (sha256Hex rawToken) with
  | none =>
      rw [findByHash, List.find?_eq_none] at hbefore
      exact absurd (decide_eq_true hhash) (hbefore row hmem)
  | some first =>
      -- The hash is that of one row only.
      have hsame : first.token_hash = row.token_hash :=
        (of_decide_eq_true (List.find?_some hbefore :)).trans hhash.symm
      rw [List.inj_on_of_nodup_map store.hashes (List.mem_of_find?_eq_some hbefore) hmem hsame]

end TokenStore

end ThinkLocal.Onboarding
